import Certi.Lib.Bytes

/-!
# Handles of the 1516-2010 interface

`HandleImplementation.cpp` and the wrappers of `Handle.cpp`. A handle is a
pointer to an implementation, null in a default constructed handle. The copy
constructor and the assignment of `MessageRetractionHandleImplementation` leave
the serial number out.
-/
namespace Certi

open Bytes

/-- `sizeof(unsigned long)`. -/
inductive WordSize where
  | four | eight
  deriving DecidableEq, Repr

def WordSize.octets : WordSize → Nat
  | four => 4
  | eight => 8

abbrev ULong (w : WordSize) := BitVec (8 * w.octets)

inductive HandleException where
  | couldNotDecode
  deriving DecidableEq, Repr

/-- The loop of the encoders: each turn stores the low octet in front of the last one. -/
def storeOctets {n : Nat} : Nat → BitVec n → List Byte
  | 0, _ => []
  | size + 1, val => storeOctets size (val >>> 8) ++ [val.setWidth 8]

/-- The loop of the decoders, between two copies of memory. -/
def loadOctets {w : WordSize} (host : Order) (encoded : List Byte) : ULong w :=
  word host _ (storeOctets w.octets (word host (8 * w.octets) encoded))

/-! ## Implementations -/

/-- What the wrapper calls. `fresh` is what the memory of a new object held before. -/
structure ImplementationClass (I : Type) where
  copy (fresh rhs : I) : I
  assign (self rhs : I) : I
  equal (self rhs : I) : Bool
  notEqual (self rhs : I) : Bool
  less (self rhs : I) : Bool
  encodedLength : Nat
  encode (self : I) : List Byte
  decode (host : Order) (encoded : List Byte) : Except HandleException I

structure HandleImplementation (w : WordSize) where
  value : ULong w
  deriving DecidableEq

/-- `DECLARE_HANDLE_IMPLEMENTATION_CLASS`: federate, object class, interaction class, object
instance, attribute, parameter, dimension and region handles. -/
def handleClass (w : WordSize) : ImplementationClass (HandleImplementation w) where
  copy _ rhs := { value := rhs.value }
  assign _ rhs := { value := rhs.value }
  equal self rhs := self.value == rhs.value
  notEqual self rhs := self.value != rhs.value
  less self rhs := self.value < rhs.value
  encodedLength := w.octets
  encode self := storeOctets w.octets self.value
  decode host encoded :=
    if encoded.length ≠ w.octets then .error .couldNotDecode
    else .ok { value := loadOctets host encoded }

structure MessageRetractionHandleImplementation (w : WordSize) where
  value : ULong w
  serialNum : ULong w
  deriving DecidableEq

/-- The copy constructor does not initialise `_serialNum`, `operator=` keeps it, and `operator<`
does not look at it. -/
def messageRetractionHandleClass (w : WordSize) :
    ImplementationClass (MessageRetractionHandleImplementation w) where
  copy fresh rhs := { value := rhs.value, serialNum := fresh.serialNum }
  assign self rhs := { self with value := rhs.value }
  equal self rhs := self.value == rhs.value && self.serialNum == rhs.serialNum
  notEqual self rhs := !(self.value == rhs.value && self.serialNum == rhs.serialNum)
  less self rhs := self.value < rhs.value
  encodedLength := w.octets + w.octets
  encode self := storeOctets w.octets self.value ++ storeOctets w.octets self.serialNum
  decode host encoded :=
    if encoded.length ≠ 2 * w.octets then .error .couldNotDecode
    else .ok
      { value := loadOctets host (encoded.take w.octets)
        serialNum := loadOctets host (encoded.drop w.octets) }

/-! ## Handles -/

abbrev Handle (I : Type) := Option I

namespace Handle

variable {I : Type} (c : ImplementationClass I)

def copy (fresh : I) (rhs : Handle I) : Handle I := rhs.map (c.copy fresh)

/-- The old implementation is deleted and a copy made; `rhs` is another object. -/
def assign (fresh : I) (_self rhs : Handle I) : Handle I := rhs.map (c.copy fresh)

def equal : Handle I → Handle I → Bool
  | some self, some rhs => c.equal self rhs
  | _, _ => false

/-- Neither equal nor unequal to a null handle. -/
def notEqual : Handle I → Handle I → Bool
  | some self, some rhs => c.notEqual self rhs
  | _, _ => false

def less : Handle I → Handle I → Bool
  | some self, some rhs => c.less self rhs
  | _, _ => false

/-- `none`: a null pointer is dereferenced. -/
def encode (self : Handle I) : Option (List Byte) := self.map c.encode

def decode (host : Order) (encoded : List Byte) : Except HandleException (Handle I) :=
  (c.decode host encoded).map some

/-! ## The statement -/

/-- The containers' requirements on `operator<`, with `operator==` as its equivalence. -/
structure Ordered (handles : Handle I → Prop) : Prop where
  irreflexive : ∀ a, handles a → less c a a = false
  transitive : ∀ a b d, handles a → handles b → handles d →
    less c a b = true → less c b d = true → less c a d = true
  equivalence : ∀ a b, handles a → handles b →
    ((less c a b = false ∧ less c b a = false) ↔ equal c a b = true)

/-- The bytes are the same on every host, and every host reads an equal handle from them. -/
def Portable (handles : Handle I → Prop) : Prop :=
  ∀ a, handles a → ∃ encoded, encode c a = some encoded ∧ encoded.length = c.encodedLength ∧
    ∀ host, ∃ b, decode c host encoded = .ok b ∧ equal c b a = true

/-- Data of another length is refused. -/
def Refuses : Prop :=
  ∀ host encoded, encoded.length ≠ c.encodedLength →
    decode c host encoded = .error .couldNotDecode

/-- Copies, assigned handles and assigned implementations compare equal to what they copy. -/
structure Copies (fresh : I) (handles : Handle I → Prop) : Prop where
  copied : ∀ a, handles a → equal c (copy c fresh a) a = true
  assigned : ∀ a b, handles a → handles b → equal c (assign c fresh a b) b = true
  implementations : ∀ a b, handles (some a) → handles (some b) → c.equal (c.assign a b) b = true

structure Sound (fresh : I) (handles : Handle I → Prop) : Prop where
  portable : Portable c handles
  refuses : Refuses c
  copies : Copies c fresh handles
  ordered : Ordered c handles

end Handle

/-! ## Encoding -/

variable {w : WordSize}

theorem storeOctets_eq (n : Nat) {m : Nat} (val : BitVec m) :
    storeOctets n val = layout .big n val := by
  induction n generalizing val with
  | zero => rfl
  | succ n ih =>
    have low : BitVec.ofNat 8 val.toNat = val.setWidth 8 := BitVec.ofNat_toNat 8 val
    have high : (val >>> 8).toNat = val.toNat / 256 := by
      rw [BitVec.toNat_ushiftRight, Nat.shiftRight_eq_div_pow]
    rw [storeOctets, ih, layout, layout, high, digits, low, List.reverse_cons]

@[simp] theorem length_storeOctets (n : Nat) {m : Nat} (val : BitVec m) :
    (storeOctets n val).length = n := by
  rw [storeOctets_eq, length_layout]

/-- Both copies of memory and the loop between them read the most significant octet first. -/
theorem loadOctets_eq (host : Order) {encoded : List Byte} (length : encoded.length = w.octets) :
    (loadOctets host encoded : ULong w) = word .big _ encoded := by
  rw [loadOctets, storeOctets_eq]
  cases host with
  | big => exact word_layout .big rfl _
  | little =>
    have reversed := layout_flip .little w.octets (word .little (8 * w.octets) encoded)
    rw [layout_word .little rfl length] at reversed
    exact congrArg (word .little (8 * w.octets)) reversed

theorem loadOctets_storeOctets (host : Order) (val : ULong w) :
    loadOctets host (storeOctets w.octets val) = val := by
  rw [loadOctets_eq host (length_storeOctets _ _), storeOctets_eq]
  exact word_layout .big rfl val

/-! ## The classes -/

namespace Handle

section Generic

variable {I : Type} {c : ImplementationClass I} {fresh : I} {handles : Handle I → Prop}

/-- A null handle has nothing to encode. -/
theorem Sound.not_null (sound : Sound c fresh handles) : ¬ handles none := by
  intro null
  obtain ⟨encoded, nothing, _⟩ := sound.portable none null
  cases nothing

theorem filled_some (filled : ¬ handles none) {a : Handle I} (given : handles a) :
    ∃ i, a = some i := by
  cases a with
  | none => exact absurd given filled
  | some i => exact ⟨i, rfl⟩

/-- Where no handle is null, the wrapper adds nothing. -/
theorem portable_of (roundTrip : ∀ a host, ∃ b, c.decode host (c.encode a) = .ok b ∧
      c.equal b a = true) (length : ∀ a, (c.encode a).length = c.encodedLength)
    (filled : ¬ handles none) : Portable c handles := by
  intro a given
  obtain ⟨i, rfl⟩ := filled_some filled given
  refine ⟨c.encode i, rfl, length i, fun host => ?_⟩
  obtain ⟨b, decoded, equal⟩ := roundTrip i host
  exact ⟨some b, by rw [decode, decoded]; rfl, equal⟩

theorem copies_of (filled : ¬ handles none)
    (copied : ∀ i, handles (some i) → c.equal (c.copy fresh i) i = true)
    (assigned : ∀ i j, handles (some i) → handles (some j) → c.equal (c.assign i j) j = true) :
    Copies c fresh handles := by
  refine ⟨fun a given => ?_, fun a b _ given => ?_, assigned⟩
  · obtain ⟨i, rfl⟩ := filled_some filled given
    exact copied i given
  · obtain ⟨i, rfl⟩ := filled_some filled given
    exact copied i given

/-- The order of the values is one of the handles if the values tell them apart. -/
theorem ordered_of {n : Nat} (value : I → BitVec n) (filled : ¬ handles none)
    (less_iff : ∀ i j, c.less i j = true ↔ value i < value j)
    (equal_iff : ∀ i j, handles (some i) → handles (some j) →
      (c.equal i j = true ↔ value i = value j)) : Ordered c handles := by
  refine ⟨?_, ?_, ?_⟩
  · intro a given
    obtain ⟨i, rfl⟩ := filled_some filled given
    have least : ¬ value i < value i := BitVec.lt_irrefl _
    rw [← less_iff, Bool.not_eq_true] at least
    exact least
  · intro a b d given given' given'' below below'
    obtain ⟨i, rfl⟩ := filled_some filled given
    obtain ⟨j, rfl⟩ := filled_some filled given'
    obtain ⟨k, rfl⟩ := filled_some filled given''
    exact (less_iff i k).mpr (BitVec.lt_trans ((less_iff i j).mp below) ((less_iff j k).mp below'))
  · intro a b given given'
    obtain ⟨i, rfl⟩ := filled_some filled given
    obtain ⟨j, rfl⟩ := filled_some filled given'
    change (c.less i j = false ∧ c.less j i = false) ↔ c.equal i j = true
    rw [equal_iff i j given given', ← Bool.not_eq_true, ← Bool.not_eq_true, less_iff, less_iff,
      BitVec.not_lt, BitVec.not_lt]
    exact ⟨fun both => BitVec.le_antisymm both.2 both.1,
      fun same => ⟨same ▸ BitVec.le_refl _, same ▸ BitVec.le_refl _⟩⟩

end Generic

variable {w : WordSize}

theorem handleClass_refuses : Refuses (handleClass w) := by
  intro host encoded other
  have refused : (handleClass w).decode host encoded = .error .couldNotDecode := if_pos other
  rw [decode, refused]
  rfl

theorem messageRetraction_refuses : Refuses (messageRetractionHandleClass w) := by
  intro host encoded other
  have refused : (messageRetractionHandleClass w).decode host encoded =
      .error .couldNotDecode := by
    refine if_pos ?_
    rw [Nat.two_mul]
    exact other
  rw [decode, refused]
  rfl

theorem handleClass_portable {handles : Handle (HandleImplementation w) → Prop}
    (filled : ¬ handles none) : Portable (handleClass w) handles := by
  refine portable_of (fun a host => ⟨a, ?_, ?_⟩) (fun a => length_storeOctets _ _) filled
  · have whole : (storeOctets w.octets a.value).length = w.octets := length_storeOctets _ _
    have accepted : (handleClass w).decode host ((handleClass w).encode a) =
        .ok { value := loadOctets host (storeOctets w.octets a.value) } :=
      if_neg (not_not_intro whole)
    rw [accepted, loadOctets_storeOctets]
  · simp [handleClass]

theorem messageRetraction_portable
    {handles : Handle (MessageRetractionHandleImplementation w) → Prop}
    (filled : ¬ handles none) : Portable (messageRetractionHandleClass w) handles := by
  refine portable_of (fun a host => ⟨a, ?_, ?_⟩) (fun a => ?_) filled
  · have front : (storeOctets w.octets a.value).length = w.octets := length_storeOctets _ _
    have whole : (storeOctets w.octets a.value ++ storeOctets w.octets a.serialNum).length =
        2 * w.octets := by
      rw [List.length_append, length_storeOctets, length_storeOctets]
      omega
    have accepted : (messageRetractionHandleClass w).decode host
        ((messageRetractionHandleClass w).encode a) =
          .ok
            { value := loadOctets host ((storeOctets w.octets a.value ++
                storeOctets w.octets a.serialNum).take w.octets)
              serialNum := loadOctets host ((storeOctets w.octets a.value ++
                storeOctets w.octets a.serialNum).drop w.octets) } :=
      if_neg (not_not_intro whole)
    rw [accepted, List.take_left' front, List.drop_left' front, loadOctets_storeOctets,
      loadOctets_storeOctets]
  · simp [messageRetractionHandleClass]
  · simp [messageRetractionHandleClass]

theorem handleClass_sound_iff (fresh : HandleImplementation w)
    (handles : Handle (HandleImplementation w) → Prop) :
    Sound (handleClass w) fresh handles ↔ ¬ handles none := by
  refine ⟨Sound.not_null, fun filled => ⟨handleClass_portable filled, handleClass_refuses,
    copies_of filled ?_ ?_, ordered_of HandleImplementation.value filled ?_ ?_⟩⟩
  · intro i _
    simp [handleClass]
  · intro i j _ _
    simp [handleClass]
  · intro i j
    simp [handleClass]
  · intro i j _ _
    simp [handleClass]

/-- Serial numbers are compared, but neither copied nor ordered by. -/
theorem messageRetraction_sound_iff (fresh : MessageRetractionHandleImplementation w)
    (handles : Handle (MessageRetractionHandleImplementation w) → Prop) :
    Sound (messageRetractionHandleClass w) fresh handles ↔
      ¬ handles none ∧ ∀ a, handles (some a) → a.serialNum = fresh.serialNum := by
  constructor
  · intro sound
    refine ⟨sound.not_null, fun a given => ?_⟩
    have copied := sound.copies.copied (some a) given
    simp only [copy, Option.map_some, equal, messageRetractionHandleClass, Bool.and_eq_true,
      beq_iff_eq] at copied
    exact copied.2.symm
  · rintro ⟨filled, serial⟩
    refine ⟨messageRetraction_portable filled, messageRetraction_refuses,
      copies_of filled ?_ ?_,
      ordered_of MessageRetractionHandleImplementation.value filled ?_ ?_⟩
    · intro i given
      simp [messageRetractionHandleClass, serial i given]
    · intro i j given given'
      simp [messageRetractionHandleClass, serial i given, serial j given']
    · intro i j
      simp [messageRetractionHandleClass]
    · intro i j given given'
      simp [messageRetractionHandleClass, serial i given, serial j given']

end Handle

/-- Handles of the other classes are sound as long as none is null, message retraction handles
only if they all have the serial number that is found in the memory of a new one. -/
theorem handles_sound_iff (w : WordSize) (fresh : HandleImplementation w)
    (retraction : MessageRetractionHandleImplementation w)
    (handles : Handle (HandleImplementation w) → Prop)
    (retractions : Handle (MessageRetractionHandleImplementation w) → Prop) :
    (Handle.Sound (handleClass w) fresh handles ↔ ¬ handles none) ∧
    (Handle.Sound (messageRetractionHandleClass w) retraction retractions ↔
      ¬ retractions none ∧
        ∀ a, retractions (some a) → a.serialNum = retraction.serialNum) :=
  ⟨Handle.handleClass_sound_iff fresh handles,
    Handle.messageRetraction_sound_iff retraction retractions⟩

/-- The second message of federate 1: its copy is another handle, and it is neither below, above
nor equal to the first. -/
theorem retraction_copy_differs :
    let c := messageRetractionHandleClass .eight
    let first : MessageRetractionHandleImplementation .eight := ⟨1, 1⟩
    let second : MessageRetractionHandleImplementation .eight := ⟨1, 2⟩
    Handle.equal c (Handle.copy c first (some second)) (some second) = false ∧
      Handle.less c (some first) (some second) = false ∧
      Handle.less c (some second) (some first) = false ∧
      Handle.equal c (some first) (some second) = false ∧
      ¬ Handle.Sound c first (fun h => h = some first ∨ h = some second) := by
  intro c first second
  refine ⟨by decide, by decide, by decide, by decide, fun sound => ?_⟩
  have copied := sound.copies.copied (some second) (.inr rfl)
  exact absurd copied (by decide)

end Certi
