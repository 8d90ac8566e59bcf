import Certi.Lib.Packing
import Certi.LibRTI.Templates

/-!
# The layout of in-place data

Where the templates put the components of a value. The layout of IEEE 1516.2 packs
the components, and the offsets of the templates are those of the packing, with the
wrap-around arithmetic of `padding`.
-/
namespace Certi.Libhla

open Packing

/-! ## Boundaries and padding -/

/-- The octet boundaries that types have. -/
def Boundary (b : UInt64) : Prop := b = 1 ∨ b = 2 ∨ b = 4 ∨ b = 8

namespace Boundary

theorem max {a b : UInt64} (ha : Boundary a) (hb : Boundary b) : Boundary (max a b) := by
  rcases ha with rfl | rfl | rfl | rfl <;> rcases hb with rfl | rfl | rfl | rfl <;>
    simp [Boundary, Max.max]

theorem max_zero {a : UInt64} (ha : Boundary a) : Boundary (Max.max a 0) := by
  rcases ha with rfl | rfl | rfl | rfl <;> simp [Boundary, Max.max]

theorem storage (s : Storage) : Boundary s.sizeof := by
  obtain ⟨width, _, _⟩ := s
  cases width <;> simp [Boundary, Storage.sizeof, Width.octets]

theorem positive {b : UInt64} (h : Boundary b) : 0 < b.toNat := by
  rcases h with rfl | rfl | rfl | rfl <;> decide

theorem dvd_word {b : UInt64} (h : Boundary b) : b.toNat ∣ 2 ^ 64 := by
  rcases h with rfl | rfl | rfl | rfl <;> exact Nat.dvd_of_mod_eq_zero (by decide)

end Boundary

theorem padding_toNat {b : UInt64} (h : Boundary b) (n : UInt64) :
    (padding n b).toNat = pad n.toNat b.toNat := by
  have bound := n.toNat_lt
  rcases h with rfl | rfl | rfl | rfl <;>
    simp [padding, pad, UInt64.toNat_sub, UInt64.toNat_add, UInt64.toNat_mod] <;> omega

theorem dvd_padded {b : UInt64} (h : Boundary b) (n : UInt64) :
    b.toNat ∣ (n + padding n b).toNat := by
  rw [UInt64.toNat_add, padding_toNat h]
  exact (Nat.dvd_mod_iff h.dvd_word).mpr (dvd_alignUp n.toNat h.positive)

theorem padding_add {b k : UInt64} (h : Boundary b) (aligned : b.toNat ∣ k.toNat) (n : UInt64) :
    padding (k + n) b = padding n b := by
  apply UInt64.toNat.inj
  rw [padding_toNat h, padding_toNat h, UInt64.toNat_add, pad, Nat.mod_mod_of_dvd _ h.dvd_word]
  exact pad_add aligned

/-- Where the arithmetic does not wrap around. -/
theorem add_toNat {a n : UInt64} (inside : a.toNat + n.toNat < 2 ^ 64) :
    (a + n).toNat = a.toNat + n.toNat := by
  rw [UInt64.toNat_add, Nat.mod_eq_of_lt inside]

theorem padded_toNat {b n : UInt64} (h : Boundary b)
    (inside : alignUp n.toNat b.toNat < 2 ^ 64) :
    (n + padding n b).toNat = alignUp n.toNat b.toNat := by
  rw [add_toNat (by rw [padding_toNat h]; exact inside), padding_toNat h, alignUp]

/-! ## The facts of a type -/

def Fields.types : Fields → List Datatype
  | .fixedEnd => []
  | .field _ m n => m :: n.types

def Alternatives.types : Alternatives → List Datatype
  | .variantEnd => []
  | .field _ _ m n => m :: n.types

/-- The types that a type is built from. -/
def Datatype.components : Datatype → List Datatype
  | .basicType _ | .enumeratedType _ => []
  | .fixedArray m _ | .variableArray m => [m]
  | .fixedRecord _ m n => m :: n.types
  | .variantRecord _ _ _ m n => m :: n.types

mutual

/-- Induction over the types that a type is built from. -/
theorem Datatype.components_induction {P : Datatype → Prop}
    (built : ∀ τ : Datatype, (∀ σ ∈ τ.components, P σ) → P τ) : ∀ τ : Datatype, P τ
  | .basicType _ | .enumeratedType _ => built _ fun _ none => nomatch none
  | .fixedArray m _ | .variableArray m =>
    built _ (List.forall_mem_singleton.mpr (m.components_induction built))
  | .fixedRecord _ m n => built _
    (List.forall_mem_cons.mpr ⟨m.components_induction built, n.types_induction built⟩)
  | .variantRecord _ _ _ m n => built _
    (List.forall_mem_cons.mpr ⟨m.components_induction built, n.types_induction built⟩)

theorem Fields.types_induction {P : Datatype → Prop}
    (built : ∀ τ : Datatype, (∀ σ ∈ τ.components, P σ) → P τ) :
    ∀ fs : Fields, ∀ σ ∈ fs.types, P σ
  | .fixedEnd => fun _ none => nomatch none
  | .field _ m n =>
    List.forall_mem_cons.mpr ⟨m.components_induction built, n.types_induction built⟩

theorem Alternatives.types_induction {P : Datatype → Prop}
    (built : ∀ τ : Datatype, (∀ σ ∈ τ.components, P σ) → P τ) :
    ∀ as : Alternatives, ∀ σ ∈ as.types, P σ
  | .variantEnd => fun _ none => nomatch none
  | .field _ _ m n =>
    List.forall_mem_cons.mpr ⟨m.components_induction built, n.types_induction built⟩

end

/-- Induction over the alternatives alone. -/
theorem Alternatives.list_induction {P : Alternatives → Prop} (stop : P .variantEnd)
    (more : ∀ D e m n, P n → P (.field D e m n)) : ∀ as : Alternatives, P as
  | .variantEnd => stop
  | .field D e m n => more D e m n (n.list_induction stop more)

/-- A boundary, or none for the end of a list. -/
def BoundaryOrEnd (b : UInt64) : Prop := b = 0 ∨ Boundary b

theorem Boundary.max_orEnd {a b : UInt64} (ha : Boundary a) (hb : BoundaryOrEnd b) :
    Boundary (Max.max a b) := by
  rcases hb with rfl | hb
  · exact ha.max_zero
  · exact ha.max hb

theorem Boundary.dvd_max_left {a b : UInt64} (ha : Boundary a) (hb : BoundaryOrEnd b) :
    a.toNat ∣ (Max.max a b).toNat := by
  rcases ha with rfl | rfl | rfl | rfl <;> rcases hb with rfl | rfl | rfl | rfl | rfl <;> decide

theorem Boundary.dvd_max_right {a b : UInt64} (ha : Boundary a) (hb : Boundary b) :
    b.toNat ∣ (Max.max a b).toNat := by
  rcases ha with rfl | rfl | rfl | rfl <;> rcases hb with rfl | rfl | rfl | rfl <;> decide

mutual

theorem Datatype.boundary : ∀ τ : Datatype, Boundary τ.member.octetBoundary
  | .basicType s => Boundary.storage s
  | .enumeratedType r => Boundary.storage r
  | .fixedArray m _ => m.boundary
  | .variableArray m => (Boundary.storage HLAinteger32BE).max m.boundary
  | .fixedRecord _ m n => m.boundary.max_orEnd n.boundary
  | .variantRecord dm _ _ m n => (Boundary.storage dm).max (m.boundary.max_orEnd n.boundary)

theorem Fields.boundary : ∀ fs : Fields, BoundaryOrEnd fs.list.octetBoundary
  | .fixedEnd => .inl rfl
  | .field _ m n => .inr (m.boundary.max_orEnd n.boundary)

theorem Alternatives.boundary : ∀ as : Alternatives, BoundaryOrEnd as.list.octetBoundary
  | .variantEnd => .inl rfl
  | .field _ _ m n => .inr (m.boundary.max_orEnd n.boundary)

end

mutual

/-- A type of fixed size measures the same everywhere. -/
theorem Datatype.static : ∀ τ : Datatype, τ.member.isVariable = false →
    ∀ mem p q, τ.member.sizeof mem p = τ.member.sizeof mem q
  | .basicType _, _, _, _, _ | .enumeratedType _, _, _, _, _ => rfl
  | .fixedArray m n, fixed, mem, p, q => by
    have element : m.member.isVariable = false := fixed
    have same := m.static element mem p q
    simp only [Datatype.member, HLAfixedArray, element, HLAfixedArray.sizeof, HLAfixedArray.offset,
      Bool.false_eq_true, if_false, stride, same]
  | .fixedRecord e m n, fixed, mem, p, q => (Fields.field e m n).static fixed mem p q 0

theorem Fields.static : ∀ fs : Fields, fs.list.isVariable = false →
    ∀ mem p q offs, fs.list.sizeof mem p offs = fs.list.sizeof mem q offs
  | .fixedEnd, _, _, _, _, _ => rfl
  | .field e m n, fixed, mem, p, q, offs => by
    obtain ⟨first, others⟩ : m.member.isVariable = false ∧ n.list.isVariable = false :=
      Bool.or_eq_false_iff.mp fixed
    have same := m.static first mem p q
    simp only [Fields.list, HLAfixedField.ofFields, HLAfixedField, HLAfixedField.sizeof,
      HLAfixedField.padded, HLAfixedField.next, first, others, Bool.or_self, Bool.false_eq_true,
      if_false, same]
    split
    · exact n.static others mem p q _
    · rfl

end

theorem Alternatives.static : ∀ as : Alternatives, as.list.isVariable = false →
    ∀ mem p q d, as.list.field_sizeof mem p d = as.list.field_sizeof mem q d
  | .variantEnd, _, _, _, _, _ => rfl
  | .field D e m n, fixed, mem, p, q, d => by
    obtain ⟨first, others⟩ : m.member.isVariable = false ∧ n.list.isVariable = false :=
      Bool.or_eq_false_iff.mp fixed
    simp only [Alternatives.list, HLAvariantField.ofAlternatives, HLAvariantField,
      m.static first mem p q, n.static others mem p q d]

/-! ## The offsets of the components -/

/-- A component of a value: its index, where it starts and its type. -/
structure Part where
  index : Int
  offset : UInt64
  type : Datatype

/-- The fields with the offsets that the recursion of `field_offsetof` passes on. -/
def Fields.parts (mem : Memory) : Fields → Nat → UInt64 → List Part
  | .fixedEnd, _, _ => []
  | .field e m n, this, offs =>
    let size := HLAfixedField.padded m.member n.list mem this offs
    ⟨e, offs, m⟩ ::
      n.parts mem (HLAfixedField.next (m.member.isVariable || n.list.isVariable) this size)
        (offs + size)

/-- The alternative whose enumerators include the discriminant. -/
def Alternatives.included (d : Int) : Alternatives → Option (Int × Datatype)
  | .variantEnd => none
  | .field D e m n => if D.includes d then some (e, m) else n.included d

/-- The alternative whose index is the discriminant. -/
def Alternatives.indexed (d : Int) : Alternatives → Option Datatype
  | .variantEnd => none
  | .field _ e m n => if d = e then some m else n.indexed d

/-- The components where `operator[]` and `field<>` find them. -/
def Datatype.parts (mem : Memory) : Datatype → Nat → List Part
  | .basicType _, _ | .enumeratedType _, _ => []
  | .fixedArray m n, p => (List.range n).map fun i : Nat =>
    ⟨(i : Int), HLAfixedArray.offset m.member m.member.isVariable mem p i, m⟩
  | .variableArray m, p => (List.range (HLAvariableArray.size mem p).toNat).map fun i : Nat =>
    ⟨(i : Int), HLAvariableArray.offset m.member m.member.isVariable mem p i, m⟩
  | .fixedRecord e m n, p => (Fields.field e m n).parts mem p 0
  | .variantRecord dm d e m n, p =>
    let R := Alternatives.field d e m n
    (R.included (dm.toInt mem p)).toList.map fun a =>
      ⟨a.1, HLAvariantRecord.emptysizeof dm R.list, a.2⟩

/-- The octets that belong to no component: a basic value, the size of a variable array or a
discriminant, with the padding behind it. -/
def Datatype.header : Datatype → Option UInt64
  | .basicType s | .enumeratedType s => some s.sizeof
  | .fixedArray .. | .fixedRecord .. => none
  | .variableArray m => some (HLAvariableArray.emptysizeof m.member)
  | .variantRecord dm d e m n =>
    some (HLAvariantRecord.emptysizeof dm (Alternatives.field d e m n).list)

/-- The octets of a component of what is at `p`. -/
def Part.range (mem : Memory) (p : Nat) (c : Part) : Nat × Nat :=
  (c.offset.toNat, c.offset.toNat + (c.type.member.sizeof mem (p + c.offset.toNat)).toNat)

/-- Where the header and the components start and end. -/
def Datatype.ranges (τ : Datatype) (mem : Memory) (p : Nat) : List (Nat × Nat) :=
  τ.header.toList.map (fun size => (0, size.toNat)) ++ (τ.parts mem p).map (Part.range mem p)

/-- The fields in the specialisation for variable-size fields throughout. -/
def Fields.generic : Fields → FieldList
  | .fixedEnd => HLAfixedEnd
  | .field e m n => HLAfixedField e m.member n.generic true

def Alternatives.generic : Alternatives → AlternativeList
  | .variantEnd => HLAvariantEnd
  | .field d e m n => HLAvariantField d e m.member n.generic true

/-- Where the specialisation for components of fixed size is taken, the generic one has the
same offsets and the same size. -/
def Datatype.Specialised (mem : Memory) : Datatype → Nat → Prop
  | .basicType _, _ | .enumeratedType _, _ => True
  | .fixedArray m n, p => m.member.isVariable = false →
    (∀ i : Nat, i < n →
      HLAfixedArray.offset m.member false mem p i = HLAfixedArray.offset m.member true mem p i) ∧
    HLAfixedArray.sizeof m.member n false mem p = HLAfixedArray.sizeof m.member n true mem p
  | .variableArray m, p => m.member.isVariable = false →
    (∀ i : Nat, i < HLAvariableArray.size mem p →
      HLAvariableArray.offset m.member false mem p i =
        HLAvariableArray.offset m.member true mem p i) ∧
    HLAvariableArray.sizeof m.member false mem p = HLAvariableArray.sizeof m.member true mem p
  | .fixedRecord e m n, p =>
    let R := Fields.field e m n
    R.list.isVariable = false →
      (∀ d, R.list.field_offsetof mem p d 0 = R.generic.field_offsetof mem p d 0) ∧
      R.list.sizeof mem p 0 = R.generic.sizeof mem p 0
  | .variantRecord dm d e m n, p =>
    let R := Alternatives.field d e m n
    R.list.isVariable = false →
      HLAvariantRecord.sizeof dm R.list false mem p =
        HLAvariantRecord.sizeof dm R.generic true mem p

/-- What the layout of the value at `p` is to be. -/
structure Consistent (mem : Memory) (τ : Datatype) (p : Nat) : Prop where
  aligned : ∀ c ∈ τ.parts mem p, c.type.member.octetBoundary.toNat ∣ c.offset.toNat
  disjoint : (τ.ranges mem p).Pairwise fun a b => a.2 ≤ b.1 ∨ b.2 ≤ a.1
  exact : (τ.member.sizeof mem p).toNat = ((τ.ranges mem p).getLast?.map Prod.snd).getD 0
  specialised : τ.Specialised mem p
  accessed : ∀ e m n, τ = .fixedRecord e m n → ∀ d c,
    (τ.parts mem p).find? (fun c => c.index = d) = some c →
      (Fields.field e m n).list.field_offsetof mem p d 0 = some c.offset

/-- `σ` at `q` is `τ` at `p` or nested in it. -/
inductive Nested (mem : Memory) : Datatype → Nat → Datatype → Nat → Prop
  | here (τ : Datatype) (p : Nat) : Nested mem τ p τ p
  | inside {τ σ : Datatype} {p q : Nat} {c : Part} (part : c ∈ τ.parts mem p)
      (rest : Nested mem c.type (p + c.offset.toNat) σ q) : Nested mem τ p σ q

/-- A fixed array has an element, or elements without octets; the alternative of a variant
record that is found with the discriminant as the index measures as much as the one whose
enumerators include it. -/
def Regular (mem : Memory) : Datatype → Nat → Prop
  | .fixedArray m n, p => 0 < n ∨ m.member.sizeof mem p = 0
  | .variantRecord dm d e m n, p =>
    let R := Alternatives.field d e m n
    let content := p + (HLAvariantRecord.emptysizeof dm R.list).toNat
    ∀ a, R.included (dm.toInt mem p) = some a →
      ((R.indexed (dm.toInt mem p)).map fun m => m.member.sizeof mem content).getD 0 =
        a.2.member.sizeof mem content
  | _, _ => True

/-! ## The layout of the standard -/

mutual

/-- The number of octets of the value at `p` in the layout of the standard. -/
def Datatype.extent (mem : Memory) : Datatype → Nat → Nat
  | .basicType s, _ | .enumeratedType s, _ => s.width.octets
  | .fixedArray m n, p => packed (fun o => m.extent mem (p + o)) m.member.octetBoundary.toNat 0 n
  | .variableArray m, p =>
    packed (fun o => m.extent mem (p + o)) m.member.octetBoundary.toNat
      (alignUp 4 m.member.octetBoundary.toNat) (HLAvariableArray.size mem p).toNat
  | .fixedRecord _ m n, p => n.extent mem p (m.extent mem p)
  | .variantRecord dm d _ m n, p =>
    let start := alignUp dm.width.octets (max m.member.octetBoundary n.list.octetBoundary).toNat
    start + if d.includes (dm.toInt mem p) then m.extent mem (p + start)
      else n.extent mem (dm.toInt mem p) (p + start)

/-- Where the fields end that follow what ends at `offs`. -/
def Fields.extent (mem : Memory) : Fields → Nat → Nat → Nat
  | .fixedEnd, _, offs => offs
  | .field _ m n, p, offs =>
    let start := alignUp offs m.member.octetBoundary.toNat
    n.extent mem p (start + m.extent mem (p + start))

def Alternatives.extent (mem : Memory) : Alternatives → Int → Nat → Nat
  | .variantEnd, _, _ => 0
  | .field D _ m n, d, p => if D.includes d then m.extent mem p else n.extent mem d p

end

end Certi.Libhla
