import Certi.Lib.Ascending
import Certi.Lib.Heap
import Certi.Lib.Runs
import Certi.Lib.Throwing
import Mathlib.Logic.Function.Basic

/-!
# HLAvariantRecord

The variant record of `ieee1516-2010/encoding`: the elements that it points to
are cells of a heap, and so are the discriminants that its map is keyed by. A
discriminant is found by the hash of its present value.
-/
namespace Certi.Encoding

open Heap Ascending Throwing Runs

abbrev Octet := BitVec 8

/-- `DataElement` as the variant record uses it. `decodeFrom` leaves an element behind also when
it throws. -/
class DataElement (E : Type) where
  clone : E → E
  hash : E → Int
  isSameTypeAs : E → E → Bool
  getEncodedLength : E → Nat
  getOctetBoundary : E → Nat
  decodeFrom : E → List Octet → Nat → E × Except String Nat

open DataElement

/-- How an operation ends that does not return. -/
inductive Stop where
  | EncoderException (reason : String)
  -- a deleted element is used
  | dangling
  | divisionByZero
  -- memory that was never written is used
  | indeterminate
  deriving DecidableEq, Repr

structure VariantRecord (E : Type) where
  cells : Cells E
  /-- `_pDataElementDiscriminent`. -/
  discriminant : Option Address
  /-- `_vectorpDataElement`, a map ordered by the addresses of its keys. -/
  variants : List (Address × Address)

namespace VariantRecord

variable {E : Type} [DataElement E]

abbrev Access (E : Type) := EStateM Stop (VariantRecord E)

/-! ## Memory -/

def read (a : Address) : Access E E := fun s =>
  match cell s.cells a with
  | some e => .ok e s
  | none => .error .dangling s

def write (a : Address) (e : E) : Access E Unit :=
  modify fun s => { s with cells := assign s.cells a e }

def release (a : Address) : Access E Unit :=
  modify fun s => { s with cells := delete s.cells a }

def create (allocator : Allocator) (e : E) : Access E Address := do
  let a := place allocator (← get).cells
  modify fun s => { s with cells := allocate allocator s.cells e }
  return a

def pointTo (p : Option Address) : Access E Unit :=
  modify fun s => { s with discriminant := p }

/-- `emplace`. -/
def emplace (k a : Address) : Access E Unit :=
  modify fun s => { s with variants := store Prod.fst (k, a) s.variants }

/-- Where `_pDataElementDiscriminent` points. -/
def selected : Access E Address := fun s =>
  match s.discriminant with
  | some p => .ok p s
  | none => .error .dangling s

/-! ## Finding a discriminant -/

/-- The first entry whose key has the hash; the keys are looked at in turn. -/
def find (h : Int) : List (Address × Address) → Access E (Option (Address × Address))
  | [] => pure none
  | entry :: rest => do
    let key ← read entry.1
    if hash key = h then return some entry else find h rest

def hasMatchingDiscriminantTypeAs (d : E) : Access E Bool := do
  return (← find (hash d) (← get).variants).isSome

/-- `at` and `c_at`. -/
def entryAt (d : E) : Access E (Address × Address) := do
  match ← find (hash d) (← get).variants with
  | some entry => return entry
  | none => throw (.EncoderException "The discriminant doesn't exist !")

/-- The loop of `setDiscriminant` has no break: the last key with the hash remains. -/
def findLast (h : Int) : List (Address × Address) → Access E (Option Address)
  | [] => pure none
  | entry :: rest => do
    let key ← read entry.1
    match ← findLast h rest with
    | some k => return some k
    | none => return if hash key = h then some entry.1 else none

/-- The largest boundary of the variants. -/
def boundary : List (Address × Address) → Access E Nat
  | [] => pure 0
  | entry :: rest => do
    let variant ← read entry.2
    return max (getOctetBoundary variant) (← boundary rest)

def paddingTo (size v : Nat) : Access E Nat :=
  if v = 0 then throw .divisionByZero
  else return if size % v = 0 then 0 else v - size % v

def lengths : List (Address × Address) → Access E Nat
  | [] => pure 0
  | entry :: rest => do
    let key ← read entry.1
    let variant ← read entry.2
    return getEncodedLength key + getEncodedLength variant + (← lengths rest)

/-- `getEncodedLength` of the record: all its entries are counted. -/
def encodedLength : Access E Nat := do
  let current ← read (← selected)
  if ← hasMatchingDiscriminantTypeAs current then lengths (← get).variants else return 0

/-! ## The operations -/

def refuse (reason : String) : Access E Unit := throw (.EncoderException reason)

/-- The test that every operation with a discriminant begins with. -/
def checkType (d : E) : Access E Unit := do
  let current ← read (← selected)
  if isSameTypeAs current d then pure ()
  else refuse "Discriminant must have the same type than prototype"

/-- A selected discriminant that is no key is deleted. -/
def releaseUnmapped : Access E Unit := do
  let p ← selected
  if ← hasMatchingDiscriminantTypeAs (← read p) then pure ()
  else
    release p
    pointTo none

/-- The new element only goes into a copy of the pointer to the variant. -/
def replaceCopy (allocator : Allocator) (d stored : E) : Access E Unit := do
  let _ ← entryAt d
  let _ ← create allocator stored
  pointTo (some (← entryAt d).1)

def emplaceVariant (allocator : Allocator) (d stored : E) : Access E Unit := do
  let k ← create allocator (clone d)
  let a ← create allocator stored
  emplace k a

def addVariant (allocator : Allocator) (d v : E) : Access E Unit := do
  checkType d
  releaseUnmapped
  if ← hasMatchingDiscriminantTypeAs d then
    replaceCopy allocator d (clone v)
  else
    emplaceVariant allocator d (clone v)
    pointTo (some (← entryAt d).1)

/-- `delete` of a pointer that may be `NULL`. -/
def releasePointer : Option Address → Access E Unit
  | some p => release p
  | none => pure ()

/-- The present discriminant is deleted, also when it is a key of the map. -/
def addVariantPointer (allocator : Allocator) (d : E) : Option E → Access E Unit
  | none => refuse "Data Element pointer is NULL"
  | some v => do
    checkType d
    if ← hasMatchingDiscriminantTypeAs d then
      replaceCopy allocator d v
    else
      emplaceVariant allocator d v
      releasePointer (← get).discriminant
      pointTo (some (← entryAt d).1)

def setDiscriminant (d : E) : Access E Unit := do
  checkType d
  match ← findLast (hash d) (← get).variants with
  | some k => pointTo (some k)
  | none => refuse "This discriminent doesn't exist"

/-- `setVariant` and `setVariantPointer` delete the variant and put the new element, `stored`, into
a copy of the pointer to it. -/
def exchange (allocator : Allocator) (d v stored : E) : Access E Unit := do
  checkType d
  if ← hasMatchingDiscriminantTypeAs d then
    let entry ← entryAt d
    let old ← read entry.2
    if isSameTypeAs old v then
      release entry.2
      let _ ← create allocator stored
      pointTo (some (← entryAt d).1)
    else
      refuse "Value doesn't have the same value than anterior value"
  else
    refuse "This discriminent doesn't exist"

def setVariant (allocator : Allocator) (d v : E) : Access E Unit := exchange allocator d v (clone v)

def setVariantPointer (allocator : Allocator) (d : E) : Option E → Access E Unit
  | none => refuse "Data Element pointer is NULL"
  | some v => exchange allocator d v v

/-- A decoded element takes its cell also when decoding throws. -/
def decodeAt (a : Address) (buffer : List Octet) (index : Nat) : Access E Nat := do
  let e ← read a
  write a (decodeFrom e buffer index).1
  match (decodeFrom e buffer index).2 with
  | .ok next => return next
  | .error reason => throw (.EncoderException reason)

/-- The index is advanced by the index that the discriminant returns. -/
def decode (buffer : List Octet) (index : Nat) : Access E Unit := do
  let p ← selected
  let next ← decodeAt p buffer index
  let current ← read p
  let padding ← paddingTo (getEncodedLength current) (← boundary (← get).variants)
  let entry ← entryAt current
  let _ ← decodeAt entry.2 buffer (index + next + padding)
  let _ ← encodedLength
  return

def getDiscriminant : Access E E := do read (← selected)

def getVariant : Access E E := do
  let current ← read (← selected)
  if ← hasMatchingDiscriminantTypeAs current then
    read (← entryAt current).2
  else
    throw (.EncoderException "This discriminent isn't mapped")

inductive Operation (E : Type) where
  | addVariant (d v : E)
  | addVariantPointer (d : E) (v : Option E)
  | setDiscriminant (d : E)
  | setVariant (d v : E)
  | setVariantPointer (d : E) (v : Option E)
  | decodeFrom (buffer : List Octet) (index : Nat)

def perform (allocator : Allocator) : Operation E → Access E Unit
  | .addVariant d v => addVariant allocator d v
  | .addVariantPointer d v => addVariantPointer allocator d v
  | .setDiscriminant d => setDiscriminant d
  | .setVariant d v => setVariant allocator d v
  | .setVariantPointer d v => setVariantPointer allocator d v
  | .decodeFrom buffer index => decode buffer index

/-- An operation and how it ended, `none` when it returned. -/
def record (allocator : Allocator) : Machine (VariantRecord E) (Operation E) (Option Stop) :=
  fun s op =>
    match perform allocator op s with
    | .ok _ s' => (s', none)
    | .error e s' => (s', some e)

/-- `HLAvariantRecordImplementation(a_prototype)`. -/
def construct (allocator : Allocator) (prototype : E) : VariantRecord E where
  cells := allocate allocator [] (clone prototype)
  discriminant := some (place allocator ([] : Cells E))
  variants := []

/-! ## What a variant record is for -/

/-- A finite map from discriminants to variants, and a selected discriminant. -/
structure Choice (E : Type) where
  variants : E → Option E
  selected : E

/-- What an operation makes of the map when it ends so; one that throws changes nothing. -/
inductive Lawful [DecidableEq E] (c : Choice E) :
    Operation E → Option Stop → Choice E → Prop where
  | added (d v : E) :
    Lawful c (.addVariant d v) none ⟨Function.update c.variants d (some v), d⟩
  | addedPointer (d v : E) :
    Lawful c (.addVariantPointer d (some v)) none ⟨Function.update c.variants d (some v), d⟩
  | selected (d : E) (known : (c.variants d).isSome = true) :
    Lawful c (.setDiscriminant d) none ⟨c.variants, d⟩
  | set (d v : E) (known : (c.variants d).isSome = true) :
    Lawful c (.setVariant d v) none ⟨Function.update c.variants d (some v), d⟩
  | setPointer (d v : E) (known : (c.variants d).isSome = true) :
    Lawful c (.setVariantPointer d (some v)) none ⟨Function.update c.variants d (some v), d⟩
  | decoded (buffer : List Octet) (index place next last : Nat) (d v v' : E)
      (first : decodeFrom c.selected buffer index = (d, .ok next))
      (known : c.variants d = some v)
      (second : decodeFrom v buffer place = (v', .ok last)) :
    Lawful c (.decodeFrom buffer index) none ⟨Function.update c.variants d (some v'), d⟩
  | thrown (op : Operation E) (reason : String) :
    Lawful c op (some (.EncoderException reason)) c

/-- What the operations that were performed have made of the record. -/
inductive Follows [DecidableEq E] (prototype : E) :
    List (Operation E × Option Stop) → Choice E → Prop where
  | start : Follows prototype [] ⟨fun _ => none, prototype⟩
  | step {past : List (Operation E × Option Stop)} {c c' : Choice E} {op : Operation E}
      {outcome : Option Stop} (before : Follows prototype past c)
      (lawful : Lawful c op outcome c') : Follows prototype (past ++ [(op, outcome)]) c'

/-- The map has an entry with these values. -/
def Maps (m : Address → Option E) (l : List (Address × Address)) (d v : E) : Prop :=
  ∃ e ∈ l, m e.1 = some d ∧ m e.2 = some v

/-- The entries of a record: their elements are there, none is used twice, and no two keys have
one hash. -/
structure Tidy (m : Address → Option E) (l : List (Address × Address)) : Prop where
  ascends : Ascends Prod.fst l
  live : ∀ e ∈ l, ∃ d v, m e.1 = some d ∧ m e.2 = some v
  hashes : ∀ e ∈ l, ∀ e' ∈ l, ∀ d d', m e.1 = some d → m e'.1 = some d' → hash d = hash d' → e = e'
  values : ∀ e ∈ l, ∀ e' ∈ l, e.2 = e'.2 → e = e'
  apart : ∀ e ∈ l, ∀ e' ∈ l, e.1 ≠ e'.2

structure Represents (s : VariantRecord E) (c : Choice E) : Prop where
  tidy : Tidy (cell s.cells) s.variants
  agrees : ∀ d v, c.variants d = some v ↔ Maps (cell s.cells) s.variants d v
  selected : ∃ p, s.discriminant = some p ∧ cell s.cells p = some c.selected ∧
    (s.variants = [] ∨ ∃ a, (p, a) ∈ s.variants)

/-! ## Which operations obey -/

def current (s : VariantRecord E) : Option E := s.discriminant.bind (cell s.cells)

/-- The type of the discriminant is that of the present one. -/
def accepts (s : VariantRecord E) (d : E) : Bool := s.current.any (isSameTypeAs · d)

def largestBoundary (m : Address → Option E) : List (Address × Address) → Nat
  | [] => 0
  | e :: rest => max ((m e.2).elim 0 getOctetBoundary) (largestBoundary m rest)

def paddingOf (size v : Nat) : Nat := if size % v = 0 then 0 else v - size % v

/-- A discriminant is added once, or again with the variant it has; by pointer only to an empty
record. No variant is set, and decoding finds the discriminant that is selected. Nothing has the
hash of another discriminant, and what is copied is what is given. -/
def Orderly (s : VariantRecord E) : Operation E → Prop
  | .addVariant d v => s.accepts d = true → clone d = d ∧ clone v = v ∧
    ∀ d' v', Maps (cell s.cells) s.variants d' v' → hash d' = hash d → d' = d ∧ v' = v
  | .addVariantPointer _ none => True
  | .addVariantPointer d (some v) => s.accepts d = true → clone d = d ∧
    (∀ d' v', Maps (cell s.cells) s.variants d' v' → hash d' = hash d → d' = d ∧ v' = v) ∧
    ((∀ v', ¬Maps (cell s.cells) s.variants d v') → s.variants = [])
  | .setDiscriminant d => s.accepts d = true →
    ∀ d' v', Maps (cell s.cells) s.variants d' v' → hash d' = hash d → d' = d
  | .setVariant d v => s.accepts d = true →
    ∀ d' v', Maps (cell s.cells) s.variants d' v' → hash d' = hash d → isSameTypeAs v' v = false
  | .setVariantPointer _ none => True
  | .setVariantPointer d (some v) => s.accepts d = true →
    ∀ d' v', Maps (cell s.cells) s.variants d' v' → hash d' = hash d → isSameTypeAs v' v = false
  | .decodeFrom buffer index => ∀ d, s.current = some d → (decodeFrom d buffer index).1 = d ∧
    ∀ next, (decodeFrom d buffer index).2 = .ok next →
      largestBoundary (cell s.cells) s.variants ≠ 0 ∧
      ∀ v, Maps (cell s.cells) s.variants d v → ∀ reason,
        (decodeFrom v buffer (index + next + paddingOf (getEncodedLength d)
          (largestBoundary (cell s.cells) s.variants))).2 = .error reason →
        (decodeFrom v buffer (index + next + paddingOf (getEncodedLength d)
          (largestBoundary (cell s.cells) s.variants))).1 = v

/-! ## The parts of the operations -/

variable {s : VariantRecord E} {c : Choice E} {d v e : E} {a p : Address} {h : Int}
  {l : List (Address × Address)}

omit [DataElement E] in
theorem read_ok (there : cell s.cells a = some e) : read a s = .ok e s := by
  rw [read, there]

omit [DataElement E] in
theorem selected_ok (pointer : s.discriminant = some p) : selected s = .ok p s := by
  rw [selected, pointer]

/-- The search ends with an entry that has the hash, or there is none. -/
theorem find_spec (live : ∀ entry ∈ l, ∃ d, cell s.cells entry.1 = some d) :
    ∃ found, find h l s = .ok found s ∧
      (∀ entry, found = some entry →
        entry ∈ l ∧ ∃ d, cell s.cells entry.1 = some d ∧ hash d = h) ∧
      (found = none → ∀ entry ∈ l, ∀ d, cell s.cells entry.1 = some d → hash d ≠ h) := by
  induction l with
  | nil => exact ⟨none, rfl, nofun, fun _ entry member => by cases member⟩
  | cons entry rest ih =>
    obtain ⟨d, key⟩ := live entry List.mem_cons_self
    rw [find, bind_ok (read_ok key)]
    by_cases here : hash d = h
    · refine ⟨some entry, by simp [here], ?_, nofun⟩
      intro entry' same
      cases same
      exact ⟨List.mem_cons_self, d, key, here⟩
    · obtain ⟨found, done, met, unmet⟩ := ih fun e member => live e (List.mem_cons_of_mem _ member)
      refine ⟨found, by simp [here, done], ?_, ?_⟩
      · intro entry' reached
        obtain ⟨member, d', key', same⟩ := met entry' reached
        exact ⟨List.mem_cons_of_mem _ member, d', key', same⟩
      · intro nothing entry' member d' key'
        rcases List.mem_cons.mp member with rfl | later
        · rw [key] at key'
          cases key'
          exact here
        · exact unmet nothing entry' later d' key'

theorem Tidy.keys (tidy : Tidy (cell s.cells) l) : ∀ entry ∈ l, ∃ d, cell s.cells entry.1 = some d := by
  intro entry member
  obtain ⟨d, _, key, _⟩ := tidy.live entry member
  exact ⟨d, key⟩

theorem find_there (tidy : Tidy (cell s.cells) l) {entry : Address × Address} (member : entry ∈ l)
    (key : cell s.cells entry.1 = some d) : find (hash d) l s = .ok (some entry) s := by
  obtain ⟨found, done, met, unmet⟩ := find_spec (h := hash d) tidy.keys
  cases found with
  | none => exact absurd rfl (unmet rfl entry member d key)
  | some other =>
    obtain ⟨member', d', key', same⟩ := met other rfl
    rw [done, tidy.hashes other member' entry member d' d key' key same]

theorem find_absent (tidy : Tidy (cell s.cells) l)
    (absent : ∀ entry ∈ l, ∀ d, cell s.cells entry.1 = some d → hash d ≠ h) :
    find h l s = .ok none s := by
  obtain ⟨found, done, met, -⟩ := find_spec (h := h) tidy.keys
  cases found with
  | none => exact done
  | some other =>
    obtain ⟨member, d, key, same⟩ := met other rfl
    exact absurd same (absent other member d key)

/-- The entries with the hash, of which there is one at most. -/
theorem match_cases (tidy : Tidy (cell s.cells) s.variants) (h : Int) :
    (∃ entry ∈ s.variants, ∃ d v, cell s.cells entry.1 = some d ∧ cell s.cells entry.2 = some v ∧
      hash d = h) ∨
    ∀ entry ∈ s.variants, ∀ d, cell s.cells entry.1 = some d → hash d ≠ h := by
  by_cases there : ∃ entry ∈ s.variants, ∃ d, cell s.cells entry.1 = some d ∧ hash d = h
  · obtain ⟨entry, member, d, key, same⟩ := there
    obtain ⟨d', v, key', value⟩ := tidy.live entry member
    exact .inl ⟨entry, member, d, v, key, value, same⟩
  · refine .inr fun entry member d key same => there ⟨entry, member, d, key, same⟩

theorem hasMatching_there (tidy : Tidy (cell s.cells) s.variants) {entry : Address × Address}
    (member : entry ∈ s.variants) (key : cell s.cells entry.1 = some d) (same : hash d = hash e) :
    hasMatchingDiscriminantTypeAs e s = .ok true s := by
  rw [hasMatchingDiscriminantTypeAs, get_bind, ← same, bind_ok (find_there tidy member key)]
  rfl

theorem hasMatching_absent (tidy : Tidy (cell s.cells) s.variants)
    (absent : ∀ entry ∈ s.variants, ∀ d, cell s.cells entry.1 = some d → hash d ≠ hash e) :
    hasMatchingDiscriminantTypeAs e s = .ok false s := by
  rw [hasMatchingDiscriminantTypeAs, get_bind, bind_ok (find_absent tidy absent)]
  rfl

theorem entryAt_there (tidy : Tidy (cell s.cells) s.variants) {entry : Address × Address}
    (member : entry ∈ s.variants) (key : cell s.cells entry.1 = some d) (same : hash d = hash e) :
    entryAt e s = .ok entry s := by
  rw [entryAt, get_bind, ← same, bind_ok (find_there tidy member key)]
  rfl

theorem findLast_spec (live : ∀ entry ∈ l, ∃ d, cell s.cells entry.1 = some d) :
    ∃ found, findLast h l s = .ok found s ∧
      (∀ k, found = some k → ∃ entry ∈ l, entry.1 = k ∧ ∃ d, cell s.cells k = some d ∧ hash d = h) ∧
      (found = none → ∀ entry ∈ l, ∀ d, cell s.cells entry.1 = some d → hash d ≠ h) := by
  induction l with
  | nil => exact ⟨none, rfl, nofun, fun _ entry member => by cases member⟩
  | cons entry rest ih =>
    obtain ⟨d, key⟩ := live entry List.mem_cons_self
    obtain ⟨found, done, met, unmet⟩ := ih fun e member => live e (List.mem_cons_of_mem _ member)
    rw [findLast, bind_ok (read_ok key), bind_ok done]
    cases found with
    | some k =>
      refine ⟨some k, rfl, ?_, nofun⟩
      intro k' same
      cases same
      obtain ⟨entry', member, rest'⟩ := met k rfl
      exact ⟨entry', List.mem_cons_of_mem _ member, rest'⟩
    | none =>
      by_cases here : hash d = h
      · refine ⟨some entry.1, by simp [here], ?_, nofun⟩
        intro k same
        cases same
        exact ⟨entry, List.mem_cons_self, rfl, d, key, here⟩
      · refine ⟨none, by simp [here], nofun, ?_⟩
        intro _ entry' member d' key'
        rcases List.mem_cons.mp member with rfl | later
        · rw [key] at key'
          cases key'
          exact here
        · exact unmet rfl entry' later d' key'

/-- The type check, in a record that has its discriminant. -/
theorem checkType_spec (pointer : s.discriminant = some p) (there : cell s.cells p = some e)
    (d : E) : s.accepts d = isSameTypeAs e d ∧ checkType d s =
      if isSameTypeAs e d then .ok () s
      else .error (.EncoderException "Discriminant must have the same type than prototype") s := by
  constructor
  · simp [accepts, current, pointer, there]
  · rw [checkType, bind_ok (selected_ok pointer), bind_ok (read_ok there)]
    cases isSameTypeAs e d <;> rfl

omit [DataElement E] in
theorem create_ok (allocator : Allocator) (e : E) (s : VariantRecord E) :
    create allocator e s =
      .ok (place allocator s.cells) { s with cells := allocate allocator s.cells e } := by
  rfl

/-- Cells that are elsewhere do not matter. -/
theorem Tidy.congr {m m' : Address → Option E} (tidy : Tidy m l)
    (same : ∀ e ∈ l, m' e.1 = m e.1 ∧ m' e.2 = m e.2) : Tidy m' l where
  ascends := tidy.ascends
  live := by
    intro e member
    rw [(same e member).1, (same e member).2]
    exact tidy.live e member
  hashes := by
    intro e member e' member' d d' key key'
    rw [(same e member).1] at key
    rw [(same e' member').1] at key'
    exact tidy.hashes e member e' member' d d' key key'
  values := tidy.values
  apart := tidy.apart

omit [DataElement E] in
theorem Maps.congr {m m' : Address → Option E}
    (same : ∀ e ∈ l, m' e.1 = m e.1 ∧ m' e.2 = m e.2) : Maps m' l d v ↔ Maps m l d v := by
  refine exists_congr fun e => and_congr_right fun member => ?_
  rw [(same e member).1, (same e member).2]

omit [DataElement E] in
theorem ne_place {cells : Cells E} (allocator : Allocator) (there : cell cells a = some e) :
    a ≠ place allocator cells := by
  rintro rfl
  rw [cell_place] at there
  cases there

/-- A new key with its variant, when no key has its hash. -/
theorem Tidy.emplace {m n : Address → Option E} {k : Address} (tidy : Tidy m l) (apart : k ≠ a)
    (free : m k = none) (free' : m a = none) (key : n k = some d) (value : n a = some v)
    (others : ∀ b, b ≠ k → b ≠ a → n b = m b)
    (absent : ∀ entry ∈ l, ∀ d', m entry.1 = some d' → hash d' ≠ hash d) :
    Tidy n (store Prod.fst (k, a) l) ∧
      ∀ d' v', Maps n (store Prod.fst (k, a) l) d' v' ↔ (d' = d ∧ v' = v) ∨ Maps m l d' v' := by
  have member : ∀ e, e ∈ store Prod.fst (k, a) l ↔ e = (k, a) ∨ (e ∈ l ∧ e.1 ≠ k) := fun e =>
    mem_store tidy.ascends
  have elsewhere : ∀ e ∈ l, e.1 ≠ k ∧ e.1 ≠ a ∧ e.2 ≠ k ∧ e.2 ≠ a := by
    intro e inside
    obtain ⟨d', v', key', value'⟩ := tidy.live e inside
    refine ⟨?_, ?_, ?_, ?_⟩ <;> rintro same
    · rw [same, free] at key'
      cases key'
    · rw [same, free'] at key'
      cases key'
    · rw [same, free] at value'
      cases value'
    · rw [same, free'] at value'
      cases value'
  have same : ∀ e ∈ l, n e.1 = m e.1 ∧ n e.2 = m e.2 := by
    intro e inside
    obtain ⟨one, two, three, four⟩ := elsewhere e inside
    exact ⟨others _ one two, others _ three four⟩
  have tidy' := tidy.congr same
  constructor
  · constructor
    · exact ascends_store tidy.ascends
    · intro e inside
      rcases (member e).mp inside with rfl | ⟨old, -⟩
      · exact ⟨d, v, key, value⟩
      · exact tidy'.live e old
    · intro e inside e' inside' d₁ d₂ key₁ key₂ equal
      rcases (member e).mp inside with rfl | ⟨old, -⟩ <;>
        rcases (member e').mp inside' with rfl | ⟨old', -⟩
      · rfl
      · obtain rfl : d = d₁ := by simpa [key] using key₁
        exact absurd equal.symm (absent e' old' d₂ ((same e' old').1 ▸ key₂))
      · obtain rfl : d = d₂ := by simpa [key] using key₂
        exact absurd equal (absent e old d₁ ((same e old).1 ▸ key₁))
      · exact tidy'.hashes e old e' old' d₁ d₂ key₁ key₂ equal
    · intro e inside e' inside' equal
      rcases (member e).mp inside with rfl | ⟨old, -⟩ <;>
        rcases (member e').mp inside' with rfl | ⟨old', -⟩
      · rfl
      · exact absurd equal.symm (elsewhere e' old').2.2.2
      · exact absurd equal (elsewhere e old).2.2.2
      · exact tidy'.values e old e' old' equal
    · intro e inside e' inside' equal
      rcases (member e).mp inside with rfl | ⟨old, -⟩ <;>
        rcases (member e').mp inside' with rfl | ⟨old', -⟩
      · exact apart equal
      · exact (elsewhere e' old').2.2.1 equal.symm
      · exact (elsewhere e old).2.1 equal
      · exact tidy'.apart e old e' old' equal
  · intro d' v'
    constructor
    · rintro ⟨e, inside, key', value'⟩
      rcases (member e).mp inside with rfl | ⟨old, -⟩
      · left
        rw [key] at key'
        rw [value] at value'
        cases key'
        cases value'
        exact ⟨rfl, rfl⟩
      · exact .inr ((Maps.congr same).mp ⟨e, old, key', value'⟩)
    · rintro (⟨rfl, rfl⟩ | ⟨e, old, key', value'⟩)
      · exact ⟨(k, a), (member _).mpr (.inl rfl), key, value⟩
      · refine ⟨e, (member e).mpr (.inr ⟨old, (elsewhere e old).1⟩), ?_, ?_⟩
        · rw [(same e old).1, key']
        · rw [(same e old).2, value']

/-- The pointer is moved to a key; other cells may have come or gone. -/
theorem Represents.move {s' : VariantRecord E} {k : Address} (represents : Represents s c)
    (variants : s'.variants = s.variants)
    (same : ∀ e ∈ s.variants, cell s'.cells e.1 = cell s.cells e.1 ∧
      cell s'.cells e.2 = cell s.cells e.2) (pointer : s'.discriminant = some k)
    (member : (k, a) ∈ s.variants) (key : cell s.cells k = some d) :
    Represents s' ⟨c.variants, d⟩ where
  tidy := by
    rw [variants]
    exact represents.tidy.congr same
  agrees := by
    intro d' v'
    rw [variants, Maps.congr same]
    exact represents.agrees d' v'
  selected := by
    refine ⟨k, pointer, ?_, .inr ⟨a, variants ▸ member⟩⟩
    rw [(same (k, a) member).1, key]

/-- What `represents` says of a discriminant that some key has the hash of. -/
theorem Represents.known (represents : Represents s c) {entry : Address × Address}
    (member : entry ∈ s.variants) (key : cell s.cells entry.1 = some d)
    (value : cell s.cells entry.2 = some v) : c.variants d = some v :=
  (represents.agrees d v).mpr ⟨entry, member, key, value⟩

section Steps

variable [DecidableEq E] (allocator : Allocator)

/-- An operation obeys when it leaves a record of a map that it may make. -/
def Obeys (s : VariantRecord E) (c : Choice E) (op : Operation E) : Prop :=
  ∃ c', Lawful c op (record allocator s op).2 c' ∧ Represents (record allocator s op).1 c'

theorem obeys_throws {op : Operation E} {s' : VariantRecord E} (reason : String)
    (thrown : perform allocator op s = .error (.EncoderException reason) s')
    (kept : Represents s' c) : Obeys allocator s c op := by
  rw [Obeys, record, thrown]
  exact ⟨c, .thrown op reason, kept⟩

theorem obeys_returns {op : Operation E} {c' : Choice E} {s' : VariantRecord E}
    (returned : perform allocator op s = .ok () s') (lawful : Lawful c op none c')
    (kept : Represents s' c') : Obeys allocator s c op := by
  rw [Obeys, record, returned]
  exact ⟨c', lawful, kept⟩

theorem setDiscriminant_obeys (represents : Represents s c) (d : E)
    (orderly : Orderly s (.setDiscriminant d)) : Obeys allocator s c (.setDiscriminant d) := by
  obtain ⟨p, pointer, there, -⟩ := represents.selected
  obtain ⟨accepts, checks⟩ := checkType_spec pointer there d
  cases right : isSameTypeAs c.selected d with
  | false =>
    rw [right] at checks
    exact obeys_throws allocator _ (bind_error checks) represents
  | true =>
    rw [right] at checks accepts
    obtain ⟨found, done, met, unmet⟩ := findLast_spec (h := hash d) represents.tidy.keys
    cases found with
    | none =>
      have run : perform allocator (.setDiscriminant d) s =
          refuse "This discriminent doesn't exist" s := by
        rw [perform, setDiscriminant, bind_ok checks, get_bind, bind_ok done]
      exact obeys_throws allocator _ run represents
    | some k =>
      have run : perform allocator (.setDiscriminant d) s = pointTo (some k) s := by
        rw [perform, setDiscriminant, bind_ok checks, get_bind, bind_ok done]
      obtain ⟨⟨k, a⟩, member, rfl, d', key, same⟩ := met k rfl
      obtain ⟨_, v, key', value⟩ := represents.tidy.live _ member
      rw [key] at key'
      cases key'
      obtain rfl := orderly accepts d' v ⟨_, member, key, value⟩ same
      refine obeys_returns allocator run (.selected d' ?_) ?_
      · rw [represents.known member key value]
        rfl
      · exact represents.move rfl (fun e _ => ⟨rfl, rfl⟩) rfl member key

omit [DecidableEq E] in
/-- Setting a variant obeys when it throws: the element that is deleted stays in the map. -/
theorem exchange_throws (represents : Represents s c) (d v stored : E)
    (refused : s.accepts d = true →
      ∀ d' v', Maps (cell s.cells) s.variants d' v' → hash d' = hash d →
        isSameTypeAs v' v = false) :
    ∃ reason, exchange allocator d v stored s = .error (.EncoderException reason) s := by
  obtain ⟨p, pointer, there, -⟩ := represents.selected
  obtain ⟨accepts, checks⟩ := checkType_spec pointer there d
  cases right : isSameTypeAs c.selected d with
  | false =>
    rw [right] at checks
    exact ⟨_, bind_error checks⟩
  | true =>
    rw [right] at checks accepts
    rcases match_cases represents.tidy (hash d) with
      ⟨entry, member, d', v', key, value, same⟩ | absent
    · have different := refused accepts d' v' ⟨entry, member, key, value⟩ same
      refine ⟨"Value doesn't have the same value than anterior value", ?_⟩
      rw [exchange, bind_ok checks, bind_ok (hasMatching_there represents.tidy member key same),
        if_pos rfl, bind_ok (entryAt_there represents.tidy member key same),
        bind_ok (read_ok value), different]
      rfl
    · refine ⟨"This discriminent doesn't exist", ?_⟩
      rw [exchange, bind_ok checks, bind_ok (hasMatching_absent represents.tidy absent)]
      rfl

theorem setVariant_obeys (represents : Represents s c) (d v : E)
    (orderly : Orderly s (.setVariant d v)) : Obeys allocator s c (.setVariant d v) := by
  obtain ⟨reason, thrown⟩ := exchange_throws allocator represents d v (clone v) orderly
  exact obeys_throws allocator _ thrown represents

theorem setVariantPointer_obeys (represents : Represents s c) (d : E) (v : Option E)
    (orderly : Orderly s (.setVariantPointer d v)) :
    Obeys allocator s c (.setVariantPointer d v) := by
  cases v with
  | none => exact obeys_throws allocator _ (by rfl) represents
  | some v =>
    obtain ⟨reason, thrown⟩ := exchange_throws allocator represents d v v orderly
    exact obeys_throws allocator _ thrown represents

/-- A discriminant that is there is added with the variant that it has. -/
theorem add_again (represents : Represents s c) {entry : Address × Address}
    (member : entry ∈ s.variants) (key : cell s.cells entry.1 = some d)
    (value : cell s.cells entry.2 = some v) (stored : E) :
    ∃ s', replaceCopy allocator d stored s = .ok () s' ∧
        Represents s' ⟨Function.update c.variants d (some v), d⟩ := by
  have same : ∀ e ∈ s.variants,
      cell (allocate allocator s.cells stored) e.1 = cell s.cells e.1 ∧
        cell (allocate allocator s.cells stored) e.2 = cell s.cells e.2 := by
    intro e inside
    obtain ⟨d', v', key', value'⟩ := represents.tidy.live e inside
    rw [cell_allocate, cell_allocate, if_neg (ne_place allocator key'),
      if_neg (ne_place allocator value')]
    exact ⟨rfl, rfl⟩
  have unchanged : Function.update c.variants d (some v) = c.variants := by
    rw [← represents.known member key value, Function.update_eq_self]
  have again : entryAt d { s with cells := allocate allocator s.cells stored } =
      .ok entry { s with cells := allocate allocator s.cells stored } :=
    entryAt_there (s := { s with cells := allocate allocator s.cells stored })
      (represents.tidy.congr same) member ((same entry member).1.trans key) rfl
  refine ⟨{ s with
    cells := allocate allocator s.cells stored
    discriminant := some entry.1 }, ?_, ?_⟩
  · rw [replaceCopy, bind_ok (entryAt_there represents.tidy member key rfl), bind_ok (create_ok ..),
      bind_ok again]
    rfl
  · rw [unchanged]
    exact represents.move rfl same rfl member key

/-- The record with a new key and its variant, before the pointer is moved. -/
def emplaced (s : VariantRecord E) (d v : E) : VariantRecord E where
  cells := allocate allocator (allocate allocator s.cells d) v
  discriminant := s.discriminant
  variants := store Prod.fst
    (place allocator s.cells, place allocator (allocate allocator s.cells d)) s.variants

omit [DecidableEq E] in
theorem emplaceVariant_ok (copied : clone d = d) (v : E) (s : VariantRecord E) :
    emplaceVariant allocator d v s = .ok () (emplaced allocator s d v) := by
  rw [emplaceVariant, copied, bind_ok (create_ok ..), bind_ok (create_ok ..)]
  rfl

omit [DecidableEq E] in
theorem emplaced_tidy (tidy : Tidy (cell s.cells) s.variants)
    (absent : ∀ entry ∈ s.variants, ∀ d', cell s.cells entry.1 = some d' → hash d' ≠ hash d)
    (v : E) : Tidy (cell (emplaced allocator s d v).cells) (emplaced allocator s d v).variants ∧
      (∀ d' v', Maps (cell (emplaced allocator s d v).cells) (emplaced allocator s d v).variants
        d' v' ↔ (d' = d ∧ v' = v) ∨ Maps (cell s.cells) s.variants d' v') ∧
      cell (emplaced allocator s d v).cells (place allocator s.cells) = some d := by
  have placed : cell (allocate allocator s.cells d) (place allocator s.cells) = some d := by
    rw [cell_allocate, if_pos rfl]
  have apart := ne_place allocator placed
  have key : cell (emplaced allocator s d v).cells (place allocator s.cells) = some d := by
    rw [emplaced, cell_allocate, if_neg apart, placed]
  obtain ⟨tidy', maps⟩ := tidy.emplace (n := cell (emplaced allocator s d v).cells) apart
    (cell_place allocator s.cells) (by
      have free := cell_place allocator (allocate allocator s.cells d)
      rwa [cell_allocate, if_neg apart.symm] at free) key
    (by rw [emplaced, cell_allocate, if_pos rfl])
    (by
      intro b one two
      rw [emplaced, cell_allocate, if_neg two, cell_allocate, if_neg one]) absent
  exact ⟨tidy', maps, key⟩

/-- The map gains what was added. -/
theorem gains (agrees : ∀ d v, c.variants d = some v ↔ Maps (cell s.cells) s.variants d v)
    (absent : ∀ entry ∈ s.variants, ∀ d', cell s.cells entry.1 = some d' → hash d' ≠ hash d)
    (d' v' : E) : Function.update c.variants d (some v) d' = some v' ↔
      (d' = d ∧ v' = v) ∨ Maps (cell s.cells) s.variants d' v' := by
  by_cases here : d' = d
  · subst here
    have unmapped : ¬Maps (cell s.cells) s.variants d' v' := by
      rintro ⟨entry, member, key, -⟩
      exact absent entry member d' key rfl
    simp [unmapped, eq_comm]
  · simp [here, agrees]

/-- The pointer is moved to the new key. -/
theorem select_new (s' : VariantRecord E) (agrees : ∀ d v, c.variants d = some v ↔
      Maps (cell s.cells) s.variants d v) (tidy : Tidy (cell s.cells) s.variants)
    (absent : ∀ entry ∈ s.variants, ∀ d', cell s.cells entry.1 = some d' → hash d' ≠ hash d)
    (variants : s'.variants = (emplaced allocator s d v).variants)
    (same : ∀ e ∈ s'.variants, cell s'.cells e.1 = cell (emplaced allocator s d v).cells e.1 ∧
      cell s'.cells e.2 = cell (emplaced allocator s d v).cells e.2) :
    ∃ s'', (do pointTo (some (← entryAt d).1) : Access E Unit) s' = .ok () s'' ∧
      Represents s'' ⟨Function.update c.variants d (some v), d⟩ := by
  obtain ⟨tidy', maps, key⟩ := emplaced_tidy allocator tidy absent v
  have member : (place allocator s.cells, place allocator (allocate allocator s.cells d)) ∈
      s'.variants := by
    rw [variants]
    exact (mem_store tidy.ascends).mpr (.inl rfl)
  have kept : Tidy (cell s'.cells) s'.variants := by
    rw [← variants] at tidy'
    exact tidy'.congr same
  have key' : cell s'.cells (place allocator s.cells) = some d := (same _ member).1.trans key
  refine ⟨{ s' with discriminant := some (place allocator s.cells) }, ?_, ?_⟩
  · rw [bind_ok (entryAt_there kept member key' rfl)]
    rfl
  · constructor
    · exact kept
    · intro d' v'
      rw [gains agrees absent, ← maps, ← variants]
      exact (Maps.congr same).symm
    · exact ⟨_, rfl, key', .inr ⟨_, member⟩⟩

theorem addVariant_obeys (represents : Represents s c) (d v : E)
    (orderly : Orderly s (.addVariant d v)) : Obeys allocator s c (.addVariant d v) := by
  obtain ⟨p, pointer, there, belongs⟩ := represents.selected
  obtain ⟨accepts, checks⟩ := checkType_spec pointer there d
  cases right : isSameTypeAs c.selected d with
  | false =>
    rw [right] at checks
    exact obeys_throws allocator _ (bind_error checks) represents
  | true =>
    rw [right] at checks accepts
    obtain ⟨copied, copied', alone⟩ := orderly accepts
    rcases belongs with empty | ⟨a, selected⟩
    · -- the prototype goes, and the first entry comes
      have absent : ∀ h, ∀ entry ∈ s.variants, ∀ d', cell s.cells entry.1 = some d' →
          hash d' ≠ h := by
        rw [empty]
        exact fun h entry member => by cases member
      have released : releaseUnmapped s = .ok () { s with
          cells := delete s.cells p
          discriminant := none } := by
        rw [releaseUnmapped, bind_ok (selected_ok pointer), bind_ok (read_ok there),
          bind_ok (hasMatching_absent represents.tidy (absent _))]
        rfl
      generalize reached : ({ s with
          cells := delete s.cells p
          discriminant := none } : VariantRecord E) = s₀ at released
      have variants : s₀.variants = s.variants := by rw [← reached]
      have same : ∀ e ∈ s.variants, cell s₀.cells e.1 = cell s.cells e.1 ∧
          cell s₀.cells e.2 = cell s.cells e.2 := by
        rw [empty]
        exact fun e member => by cases member
      have tidy : Tidy (cell s₀.cells) s₀.variants := by
        rw [variants]
        exact represents.tidy.congr same
      have agrees : ∀ d v, c.variants d = some v ↔ Maps (cell s₀.cells) s₀.variants d v := by
        intro d v
        rw [variants, Maps.congr same]
        exact represents.agrees d v
      have unmapped : ∀ entry ∈ s₀.variants, ∀ d', cell s₀.cells entry.1 = some d' →
          hash d' ≠ hash d := by
        rw [variants, empty]
        exact fun entry member => by cases member
      obtain ⟨s', run, represents'⟩ := select_new allocator (emplaced allocator s₀ d v) agrees tidy
        unmapped rfl (fun e _ => ⟨rfl, rfl⟩)
      refine obeys_returns allocator ?_ (.added d v) represents'
      rw [perform, addVariant, bind_ok checks, bind_ok released,
        bind_ok (hasMatching_absent tidy unmapped), if_neg (by simp), copied',
        bind_ok (emplaceVariant_ok allocator copied v s₀), run]
    · have present := hasMatching_there represents.tidy selected there rfl
      have kept : releaseUnmapped s = .ok () s := by
        rw [releaseUnmapped, bind_ok (selected_ok pointer), bind_ok (read_ok there),
          bind_ok present]
        rfl
      rcases match_cases represents.tidy (hash d) with
        ⟨entry, member, d', v', key, value, same⟩ | absent
      · obtain ⟨rfl, rfl⟩ := alone d' v' ⟨entry, member, key, value⟩ same
        obtain ⟨s', run, represents'⟩ := add_again allocator represents member key value (clone v')
        refine obeys_returns allocator ?_ (.added d' v') represents'
        rw [perform, addVariant, bind_ok checks, bind_ok kept,
          bind_ok (hasMatching_there represents.tidy member key rfl), if_pos rfl, run]
      · obtain ⟨s', run, represents'⟩ := select_new allocator (emplaced allocator s d v)
          represents.agrees represents.tidy absent rfl (fun e _ => ⟨rfl, rfl⟩)
        refine obeys_returns allocator ?_ (.added d v) represents'
        rw [perform, addVariant, bind_ok checks, bind_ok kept,
          bind_ok (hasMatching_absent represents.tidy absent), if_neg (by simp), copied',
          bind_ok (emplaceVariant_ok allocator copied v s), run]

theorem addVariantPointer_obeys (represents : Represents s c) (d : E) (v : Option E)
    (orderly : Orderly s (.addVariantPointer d v)) :
    Obeys allocator s c (.addVariantPointer d v) := by
  cases v with
  | none => exact obeys_throws allocator _ (by rfl) represents
  | some v =>
    obtain ⟨p, pointer, there, -⟩ := represents.selected
    obtain ⟨accepts, checks⟩ := checkType_spec pointer there d
    cases right : isSameTypeAs c.selected d with
    | false =>
      rw [right] at checks
      exact obeys_throws allocator _ (bind_error checks) represents
    | true =>
      rw [right] at checks accepts
      obtain ⟨copied, alone, first⟩ := orderly accepts
      rcases match_cases represents.tidy (hash d) with
        ⟨entry, member, d', v', key, value, same⟩ | absent
      · obtain ⟨rfl, rfl⟩ := alone d' v' ⟨entry, member, key, value⟩ same
        obtain ⟨s', run, represents'⟩ := add_again allocator represents member key value v'
        refine obeys_returns allocator ?_ (.addedPointer d' v') represents'
        rw [perform, addVariantPointer, bind_ok checks,
          bind_ok (hasMatching_there represents.tidy member key rfl), if_pos rfl, run]
      · -- the record is empty: what is deleted is the prototype
        have empty : s.variants = [] := by
          refine first fun v' ⟨entry, member, key, _⟩ => ?_
          exact absent entry member d key rfl
        have live : cell (allocate allocator s.cells d) p = some c.selected := by
          rw [cell_allocate, if_neg (ne_place allocator there), there]
        generalize reached : ({ emplaced allocator s d v with
            cells := delete (emplaced allocator s d v).cells p } : VariantRecord E) = s₁
        have variants : s₁.variants = (emplaced allocator s d v).variants := by rw [← reached]
        have kept : ∀ e ∈ s₁.variants, cell s₁.cells e.1 =
            cell (emplaced allocator s d v).cells e.1 ∧
              cell s₁.cells e.2 = cell (emplaced allocator s d v).cells e.2 := by
          intro e member
          rw [variants, emplaced, empty, store, List.mem_singleton] at member
          rw [← reached, cell_delete, cell_delete, member, if_neg (ne_place allocator there).symm,
            if_neg (ne_place allocator live).symm]
          exact ⟨rfl, rfl⟩
        obtain ⟨s', run, represents'⟩ := select_new allocator s₁ represents.agrees represents.tidy
          absent variants kept
        refine obeys_returns allocator ?_ (.addedPointer d v) represents'
        rw [perform, addVariantPointer, bind_ok checks,
          bind_ok (hasMatching_absent represents.tidy absent), if_neg (by simp),
          bind_ok (emplaceVariant_ok allocator copied v s), get_bind]
        have released : releasePointer (emplaced allocator s d v).discriminant
            (emplaced allocator s d v) = .ok () s₁ := by
          rw [show (emplaced allocator s d v).discriminant = some p from pointer, ← reached]
          rfl
        rw [bind_ok released, run]

omit [DecidableEq E] in
/-- Only what is in the cells matters. -/
theorem Represents.congr {s' : VariantRecord E} (represents : Represents s c)
    (cells : cell s'.cells = cell s.cells) (variants : s'.variants = s.variants)
    (pointer : s'.discriminant = s.discriminant) : Represents s' c where
  tidy := by
    rw [cells, variants]
    exact represents.tidy
  agrees := by
    rw [cells, variants]
    exact represents.agrees
  selected := by
    rw [cells, variants, pointer]
    exact represents.selected

omit [DataElement E] [DecidableEq E] in
/-- An element takes its own cell again. -/
theorem cell_rewrite {cells : Cells E} (there : cell cells a = some e) :
    cell (assign cells a e) = cell cells := by
  funext b
  rw [cell_assign (by rw [there]; rfl)]
  by_cases here : b = a
  · rw [if_pos here, here, there]
  · rw [if_neg here]

omit [DecidableEq E] in
theorem boundary_ok (live : ∀ entry ∈ l, ∃ v, cell s.cells entry.2 = some v) :
    boundary l s = .ok (largestBoundary (cell s.cells) l) s := by
  induction l with
  | nil => rfl
  | cons entry rest ih =>
    obtain ⟨v, value⟩ := live entry List.mem_cons_self
    rw [boundary, bind_ok (read_ok value),
      bind_ok (ih fun e member => live e (List.mem_cons_of_mem _ member)), pure_apply,
      largestBoundary, value]
    rfl

omit [DecidableEq E] in
theorem lengths_ok (live : ∀ entry ∈ l, ∃ d v, cell s.cells entry.1 = some d ∧
    cell s.cells entry.2 = some v) : ∃ n, lengths l s = .ok n s := by
  induction l with
  | nil => exact ⟨0, rfl⟩
  | cons entry rest ih =>
    obtain ⟨d, v, key, value⟩ := live entry List.mem_cons_self
    obtain ⟨n, done⟩ := ih fun e member => live e (List.mem_cons_of_mem _ member)
    exact ⟨_, by rw [lengths, bind_ok (read_ok key), bind_ok (read_ok value), bind_ok done,
      pure_apply]⟩

omit [DecidableEq E] in
theorem encodedLength_ok (represents : Represents s c) {a : Address} {p : Address}
    (pointer : s.discriminant = some p) (there : cell s.cells p = some c.selected)
    (member : (p, a) ∈ s.variants) : ∃ n, encodedLength s = .ok n s := by
  obtain ⟨n, done⟩ := lengths_ok represents.tidy.live
  refine ⟨n, ?_⟩
  rw [encodedLength, bind_ok (selected_ok pointer), bind_ok (read_ok there),
    bind_ok (hasMatching_there represents.tidy member there rfl), if_pos rfl, get_bind, done]

/-- A variant takes a new value. -/
theorem Represents.assign_variant (represents : Represents s c) {a : Address}
    (pointer : s.discriminant = some p) (there : cell s.cells p = some c.selected)
    (member : (p, a) ∈ s.variants) (value : cell s.cells a = some v) (v' : E) :
    Represents { s with cells := assign s.cells a v' }
      ⟨Function.update c.variants c.selected (some v'), c.selected⟩ := by
  have written : ∀ b, cell (assign s.cells a v') b = if b = a then some v' else cell s.cells b :=
    cell_assign (by rw [value]; rfl) v'
  have keys : ∀ e ∈ s.variants, cell (assign s.cells a v') e.1 = cell s.cells e.1 := by
    intro e inside
    rw [written, if_neg (represents.tidy.apart e inside (p, a) member)]
  have values : ∀ e ∈ s.variants, e ≠ (p, a) →
      cell (assign s.cells a v') e.2 = cell s.cells e.2 := by
    intro e inside other
    rw [written, if_neg fun same => other (represents.tidy.values e inside (p, a) member same)]
  constructor
  · constructor
    · exact represents.tidy.ascends
    · intro e inside
      obtain ⟨d, w, key, old⟩ := represents.tidy.live e inside
      dsimp only
      by_cases here : e.2 = a
      · exact ⟨d, v', by rw [keys e inside, key], by rw [written, if_pos here]⟩
      · exact ⟨d, w, by rw [keys e inside, key], by rw [written, if_neg here, old]⟩
    · intro e inside e' inside' d d' key key'
      rw [keys e inside] at key
      rw [keys e' inside'] at key'
      exact represents.tidy.hashes e inside e' inside' d d' key key'
    · exact represents.tidy.values
    · exact represents.tidy.apart
  · intro d w
    dsimp only
    by_cases here : d = c.selected
    · subst here
      rw [Function.update_self]
      constructor
      · intro same
        cases same
        refine ⟨(p, a), member, ?_, ?_⟩
        · rw [← there]
          exact keys (p, a) member
        · rw [written, if_pos rfl]
      · rintro ⟨e, inside, key, new⟩
        rw [keys e inside] at key
        obtain rfl := represents.tidy.hashes e inside (p, a) member _ _ key there rfl
        rw [written, if_pos rfl] at new
        exact new
    · rw [Function.update_of_ne here, represents.agrees]
      refine exists_congr fun e => and_congr_right fun inside => ?_
      rw [keys e inside]
      refine and_congr_right fun key => ?_
      rw [values e inside]
      rintro rfl
      rw [there] at key
      cases key
      exact here rfl
  · refine ⟨p, pointer, ?_, .inr ⟨a, member⟩⟩
    exact (keys (p, a) member).trans there

theorem decode_obeys (represents : Represents s c) (buffer : List Octet) (index : Nat)
    (orderly : Orderly s (.decodeFrom buffer index)) :
    Obeys allocator s c (.decodeFrom buffer index) := by
  obtain ⟨p, pointer, there, belongs⟩ := represents.selected
  obtain ⟨kept, further⟩ := orderly c.selected (by rw [current, pointer]; exact there)
  -- the discriminant is decoded to what it was
  generalize written : ({ s with cells := assign s.cells p c.selected } : VariantRecord E) = s₁
  have cells : cell s₁.cells = cell s.cells := by rw [← written, cell_rewrite there]
  have variants : s₁.variants = s.variants := by rw [← written]
  have pointer₁ : s₁.discriminant = some p := by rw [← written, pointer]
  have represents₁ : Represents s₁ c := represents.congr cells variants (by rw [← written])
  have there₁ : cell s₁.cells p = some c.selected := by rw [cells, there]
  have first : decodeAt p buffer index s =
      (match (decodeFrom c.selected buffer index).2 with
        | .ok next => pure next
        | .error reason => throw (.EncoderException reason) : Access E Nat) s₁ := by
    rw [decodeAt, bind_ok (read_ok there), write, modify_bind, kept, written]
  cases decoded : (decodeFrom c.selected buffer index).2 with
  | error reason =>
    rw [decoded] at first
    refine obeys_throws allocator reason ?_ represents₁
    rw [perform, decode, bind_ok (selected_ok pointer)]
    exact bind_error first
  | ok next =>
    rw [decoded] at first
    obtain ⟨wide, variantKept⟩ := further next decoded
    have filled : s.variants ≠ [] := by
      intro empty
      rw [empty] at wide
      exact wide rfl
    obtain ⟨a, member⟩ := belongs.resolve_left filled
    have member₁ : (p, a) ∈ s₁.variants := variants ▸ member
    obtain ⟨_, v, key, value⟩ := represents₁.tidy.live _ member₁
    rw [there₁] at key
    cases key
    have known : c.variants c.selected = some v :=
      represents₁.known member₁ there₁ value
    have bounds := boundary_ok (s := s₁) fun entry inside => by
      obtain ⟨_, w, _, present⟩ := represents₁.tidy.live entry inside
      exact ⟨w, present⟩
    rw [cells, variants] at bounds
    generalize placed : index + next + paddingOf (getEncodedLength c.selected)
      (largestBoundary (cell s.cells) s.variants) = at' at variantKept
    have padded : paddingTo (getEncodedLength c.selected)
        (largestBoundary (cell s.cells) s.variants) s₁ =
        .ok (paddingOf (getEncodedLength c.selected)
          (largestBoundary (cell s.cells) s.variants)) s₁ := by
      rw [paddingTo, if_neg wide]
      rfl
    have reaches : perform allocator (.decodeFrom buffer index) s = (do
        let _ ← decodeAt a buffer at'
        let _ ← encodedLength
        return : Access E Unit) s₁ := by
      rw [perform, decode, bind_ok (selected_ok pointer), bind_ok first, bind_ok (read_ok there₁),
        get_bind, variants, bind_ok bounds, bind_ok padded,
        bind_ok (entryAt_there represents₁.tidy member₁ there₁ rfl), placed]
    generalize written₂ : ({ s₁ with cells := assign s₁.cells a (decodeFrom v buffer at').1 } :
      VariantRecord E) = s₂
    have second : decodeAt a buffer at' s₁ =
        (match (decodeFrom v buffer at').2 with
          | .ok next => pure next
          | .error reason => throw (.EncoderException reason) : Access E Nat) s₂ := by
      rw [decodeAt, bind_ok (read_ok value), write, modify_bind, written₂]
    cases ended : (decodeFrom v buffer at').2 with
    | error reason =>
      rw [ended] at second
      have same := variantKept v ⟨(p, a), member, there, cells ▸ value⟩ reason ended
      have represents₂ : Represents s₂ c := by
        refine represents₁.congr ?_ (by rw [← written₂]) (by rw [← written₂])
        rw [← written₂, same, cell_rewrite value]
      refine obeys_throws allocator reason ?_ represents₂
      rw [reaches]
      exact bind_error second
    | ok last =>
      rw [ended] at second
      have represents₂ := represents₁.assign_variant pointer₁ there₁ member₁ value
        (decodeFrom v buffer at').1
      rw [written₂] at represents₂
      have pointer₂ : s₂.discriminant = some p := by rw [← written₂, pointer₁]
      have there₂ : cell s₂.cells p = some c.selected := by
        obtain ⟨q, pointer', there', -⟩ := represents₂.selected
        rw [pointer₂] at pointer'
        cases pointer'
        exact there'
      have member₂ : (p, a) ∈ s₂.variants := by
        rw [← written₂]
        exact member₁
      obtain ⟨n, measured⟩ := encodedLength_ok represents₂ pointer₂ there₂ member₂
      refine obeys_returns allocator ?_
        (.decoded buffer index at' next last c.selected v _ (Prod.ext kept decoded) known
          (Prod.ext rfl ended)) represents₂
      rw [reaches, bind_ok second, bind_ok measured]
      rfl

theorem obeys (represents : Represents s c) (op : Operation E) (orderly : Orderly s op) :
    Obeys allocator s c op := by
  cases op with
  | addVariant d v => exact addVariant_obeys allocator represents d v orderly
  | addVariantPointer d v => exact addVariantPointer_obeys allocator represents d v orderly
  | setDiscriminant d => exact setDiscriminant_obeys allocator represents d orderly
  | setVariant d v => exact setVariant_obeys allocator represents d v orderly
  | setVariantPointer d v => exact setVariantPointer_obeys allocator represents d v orderly
  | decodeFrom buffer index => exact decode_obeys allocator represents buffer index orderly

end Steps

/-! ## Runs -/

/-- What can be seen of the record. -/
structure Shows (s : VariantRecord E) (c : Choice E) : Prop where
  entries : ∀ d v, c.variants d = some v ↔ Maps (cell s.cells) s.variants d v
  once : (s.variants.map fun entry => cell s.cells entry.1).Nodup
  selected : getDiscriminant s = .ok c.selected s
  variant : getVariant s = match c.variants c.selected with
    | some v => .ok v s
    | none => .error (.EncoderException "This discriminent isn't mapped") s

theorem Represents.shows (represents : Represents s c) : Shows s c := by
  obtain ⟨p, pointer, there, belongs⟩ := represents.selected
  constructor
  · exact represents.agrees
  · refine List.Nodup.map_on ?_ (List.Nodup.of_map Prod.fst represents.tidy.ascends.nodup_keys)
    intro e inside e' inside' same
    obtain ⟨d, _, key, _⟩ := represents.tidy.live e inside
    exact represents.tidy.hashes e inside e' inside' d d key (same ▸ key) rfl
  · rw [getDiscriminant, bind_ok (selected_ok pointer), read_ok there]
  · rw [getVariant, bind_ok (selected_ok pointer), bind_ok (read_ok there)]
    rcases belongs with empty | ⟨a, member⟩
    · have unmapped : c.variants c.selected = none := by
        rw [Option.eq_none_iff_forall_not_mem]
        intro v mapped
        obtain ⟨e, inside, -⟩ := (represents.agrees _ _).mp mapped
        rw [empty] at inside
        cases inside
      rw [unmapped, bind_ok (hasMatching_absent represents.tidy (by
        rw [empty]
        exact fun entry inside => by cases inside))]
      rfl
    · obtain ⟨_, v, key, value⟩ := represents.tidy.live _ member
      rw [there] at key
      cases key
      rw [represents.known member there value,
        bind_ok (hasMatching_there represents.tidy member there rfl), if_pos rfl,
        bind_ok (entryAt_there represents.tidy member there rfl), read_ok value]

theorem construct_represents (allocator : Allocator) (prototype : E) :
    Represents (construct allocator prototype) ⟨fun _ => none, clone prototype⟩ where
  tidy := by
    constructor
    · exact List.Pairwise.nil
    all_goals exact fun e member => by cases member
  agrees := by
    intro d v
    refine iff_of_false (by simp) ?_
    rintro ⟨e, member, -⟩
    cases member
  selected := by
    refine ⟨_, rfl, ?_, .inl rfl⟩
    rw [construct, cell_allocate, if_pos rfl]

variable [DecidableEq E]

/-- In a run of orderly operations the record is the finite map that the operations made, with the
discriminant that they selected. -/
theorem finite_map (allocator : Allocator) (prototype : E) (ops : List (Operation E))
    (orderly : (record allocator).Meets Orderly (construct allocator prototype) ops) :
    ∃ c, Follows (clone prototype)
        ((record allocator).trace (construct allocator prototype) ops) c ∧
      Shows ((record allocator).exec (construct allocator prototype) ops) c := by
  have step : ∀ (past : List (Operation E × Option Stop)) (s : VariantRecord E) (op : Operation E),
      (∃ c, Follows (clone prototype) past c ∧ Represents s c) → Orderly s op →
        ∃ c, Follows (clone prototype) (past ++ [(op, (record allocator s op).2)]) c ∧
          Represents (record allocator s op).1 c := by
    rintro past s op ⟨c, follows, represents⟩ here
    obtain ⟨c', lawful, kept⟩ := obeys allocator represents op here
    exact ⟨c', follows.step lawful, kept⟩
  obtain ⟨c, follows, represents⟩ := (record allocator).trace_invariant
    (p := fun past s => ∃ c, Follows (clone prototype) past c ∧ Represents s c) step
    ⟨_, .start, construct_represents allocator prototype⟩ orderly
  exact ⟨c, follows, represents.shows⟩

end VariantRecord

/-! ## A record of octets -/

structure HLAoctet where
  data : Octet
  deriving DecidableEq, Repr

instance HLAoctet.dataElement : DataElement HLAoctet where
  clone e := e
  hash e := e.data.toInt
  isSameTypeAs _ _ := true
  getEncodedLength _ := 1
  getOctetBoundary _ := 1
  decodeFrom e buffer index :=
    match buffer[index]? with
    | some octet => (⟨octet⟩, .ok (index + 1))
    | none => (e, .error "Index superior than buffer size")

/-- The next address above all that are taken. -/
def upwards : Allocator where
  place taken := taken.foldr max 0 + 1
  free taken := by
    intro member
    have below : ∀ l : List Address, ∀ a ∈ l, a ≤ l.foldr max 0 := by
      intro l
      induction l with
      | nil => simp
      | cons b rest ih =>
        intro a inside
        rcases List.mem_cons.mp inside with rfl | later
        · simp
        · simp [ih a later]
    exact Nat.not_succ_le_self _ (below taken _ member)

namespace VariantRecord

theorem finite_map_one :
    (record upwards).Meets Orderly (construct upwards ⟨0⟩)
        [.addVariant (⟨1⟩ : HLAoctet) ⟨5⟩, .setDiscriminant ⟨1⟩] ∧
    ∃ c, Follows (DataElement.clone (⟨0⟩ : HLAoctet)) ((record upwards).trace
          (construct upwards ⟨0⟩) [.addVariant ⟨1⟩ ⟨5⟩, .setDiscriminant ⟨1⟩]) c ∧
      Shows ((record upwards).exec (construct upwards ⟨0⟩)
        [.addVariant ⟨1⟩ ⟨5⟩, .setDiscriminant ⟨1⟩]) c := by
  have added : (record upwards (construct upwards (⟨0⟩ : HLAoctet)) (.addVariant ⟨1⟩ ⟨5⟩)).1 =
      ⟨[(2, ⟨5⟩), (1, ⟨1⟩)], some 1, [(1, 2)]⟩ := by rfl
  have orderly : (record upwards).Meets Orderly (construct upwards ⟨0⟩)
      [.addVariant (⟨1⟩ : HLAoctet) ⟨5⟩, .setDiscriminant ⟨1⟩] := by
    refine ⟨fun _ => ⟨rfl, rfl, ?_⟩, ?_, trivial⟩
    · rintro d v ⟨entry, member, -⟩
      cases member
    · rw [added]
      intro _ d v mapped _
      obtain ⟨entry, member, key, _⟩ := mapped
      obtain rfl := List.mem_singleton.mp member
      exact (Option.some.inj key).symm
  exact ⟨orderly, finite_map upwards (⟨0⟩ : HLAoctet) _ orderly⟩

theorem Follows.last {E : Type} [DataElement E] [DecidableEq E] {prototype : E} {c : Choice E}
    {past : List (Operation E × Option Stop)} {op : Operation E} {outcome : Option Stop}
    (follows : Follows prototype (past ++ [(op, outcome)]) c) :
    ∃ c₀, Follows prototype past c₀ ∧ Lawful c₀ op outcome c := by
  generalize whole : past ++ [(op, outcome)] = all at follows
  cases follows with
  | start => simp at whole
  | step before lawful =>
    obtain ⟨rfl, last⟩ := List.append_inj' whole rfl
    cases last
    exact ⟨_, before, lawful⟩

/-- A discriminant is added again with another variant: the record keeps the first. -/
theorem variant_not_replaced :
    ¬∀ (allocator : Allocator) (prototype : HLAoctet) (ops : List (Operation HLAoctet)),
      ∃ c, Follows (DataElement.clone prototype)
          ((record allocator).trace (construct allocator prototype) ops) c ∧
        Shows ((record allocator).exec (construct allocator prototype) ops) c := by
  intro always
  obtain ⟨c, follows, shows'⟩ := always upwards ⟨0⟩ [.addVariant ⟨1⟩ ⟨5⟩, .addVariant ⟨1⟩ ⟨6⟩]
  have ran : (record upwards).trace (construct upwards (⟨0⟩ : HLAoctet))
      [.addVariant ⟨1⟩ ⟨5⟩, .addVariant ⟨1⟩ ⟨6⟩] =
        [(.addVariant ⟨1⟩ ⟨5⟩, none)] ++ [(.addVariant ⟨1⟩ ⟨6⟩, none)] := by rfl
  rw [ran] at follows
  obtain ⟨c₀, -, lawful⟩ := follows.last
  have kept : (getVariant ((record upwards).exec (construct upwards (⟨0⟩ : HLAoctet))
      [.addVariant ⟨1⟩ ⟨5⟩, .addVariant ⟨1⟩ ⟨6⟩])) = .ok ⟨5⟩ ((record upwards).exec
        (construct upwards (⟨0⟩ : HLAoctet)) [.addVariant ⟨1⟩ ⟨5⟩, .addVariant ⟨1⟩ ⟨6⟩]) := by rfl
  have variant := shows'.variant
  rw [kept] at variant
  cases lawful
  dsimp only at variant
  rw [Function.update_self] at variant
  cases variant

end VariantRecord

end Certi.Encoding
