import Certi.LibRTI.Layout

/-!
# Where the layout is consistent

At one level the offsets and the size follow from the sizes of the components, for every
template and both its specialisations. From there, by induction on the type, a value is
laid out consistently at every level exactly if every level is regular.
-/
namespace Certi.Libhla

open Packing

/-! ## Arrays -/

section Counting

variable {M : Member} {mem : Memory} {this : Nat} {start : UInt64}

theorem dvd_counted (bounded : Boundary M.octetBoundary)
    (aligned : M.octetBoundary.toNat ∣ start.toNat) (i : Nat) :
    M.octetBoundary.toNat ∣ (counted M mem this start i).toNat := by
  cases i with
  | zero => exact aligned
  | succ i => exact dvd_padded bounded _

/-- The closed form of the specialisations for elements of fixed size. -/
theorem counted_static (bounded : Boundary M.octetBoundary)
    (static : ∀ p q, M.sizeof mem p = M.sizeof mem q)
    (aligned : M.octetBoundary.toNat ∣ start.toNat) (i : Nat) :
    counted M mem this start i = start + .ofNat i * stride M mem this := by
  induction i with
  | zero => simp [counted]
  | succ i ih =>
    have whole : M.octetBoundary.toNat ∣ (counted M mem this start i).toNat :=
      dvd_counted bounded aligned i
    simp only [counted]
    rw [padding_add bounded whole, static _ this, ih, UInt64.add_assoc, UInt64.add_assoc]
    congr 1
    rw [UInt64.ofNat_add, UInt64.add_mul]
    congr 1
    exact (UInt64.one_mul _).symm

/-- While the elements have the sizes of a packing, they are where it places them. -/
theorem counted_place {size : Nat → Nat} {n : Nat} (bounded : Boundary M.octetBoundary)
    (fits : packed size M.octetBoundary.toNat start.toNat n < 2 ^ 64)
    (measured : ∀ i < n, size (counted M mem this start i).toNat < 2 ^ 64 →
      (M.sizeof mem (this + (counted M mem this start i).toNat)).toNat =
        size (counted M mem this start i).toNat) {i : Nat} (within : i < n) :
    (counted M mem this start i).toNat = place size M.octetBoundary.toNat start.toNat i := by
  induction i with
  | zero => rfl
  | succ i ih =>
    have before := ih (by omega)
    have ends := @place_end_le_packed size M.octetBoundary.toNat start.toNat _ _ within
    have next : place size M.octetBoundary.toNat start.toNat (i + 1) = alignUp
      (place size M.octetBoundary.toNat start.toNat i +
        size (place size M.octetBoundary.toNat start.toNat i)) M.octetBoundary.toNat := rfl
    have grows := le_alignUp (place size M.octetBoundary.toNat start.toNat i +
      size (place size M.octetBoundary.toNat start.toNat i)) M.octetBoundary.toNat
    have sized := measured i (by omega) (by rw [before]; omega)
    rw [before] at sized
    have sum : (counted M mem this start i + M.sizeof mem
        (this + (counted M mem this start i).toNat)).toNat =
        place size M.octetBoundary.toNat start.toNat i +
          size (place size M.octetBoundary.toNat start.toNat i) := by
      rw [add_toNat (by rw [before, sized]; omega), before, sized]
    simp only [counted]
    rw [padded_toNat bounded (by rw [sum]; omega), sum, next]

end Counting

theorem ofInt_natCast (i : Nat) : UInt64.ofInt i = .ofNat i := by
  apply UInt64.toNat.inj
  simp [UInt64.ofInt]
  omega

/-- In both specialisations. -/
theorem HLAfixedArray.offset_eq (m : Datatype) (mem : Memory) (p i : Nat) :
    HLAfixedArray.offset m.member m.member.isVariable mem p i = counted m.member mem p 0 i := by
  cases fixed : m.member.isVariable with
  | false =>
    rw [counted_static m.boundary (m.static fixed mem) (Nat.dvd_zero _) i]
    simp [HLAfixedArray.offset, ofInt_natCast]
  | true => rfl

theorem HLAvariableArray.dvd_emptysizeof (m : Datatype) :
    m.member.octetBoundary.toNat ∣ (HLAvariableArray.emptysizeof m.member).toNat :=
  dvd_padded m.boundary _

theorem HLAvariableArray.emptysizeof_toNat (m : Datatype) :
    (HLAvariableArray.emptysizeof m.member).toNat = alignUp 4 m.member.octetBoundary.toNat := by
  apply padded_toNat m.boundary (n := 4)
  rcases m.boundary with h | h | h | h <;> rw [h] <;> decide

theorem HLAvariableArray.offset_eq (m : Datatype) (mem : Memory) (p i : Nat) :
    HLAvariableArray.offset m.member m.member.isVariable mem p i =
      counted m.member mem p (HLAvariableArray.emptysizeof m.member) i := by
  cases fixed : m.member.isVariable with
  | false =>
    rw [counted_static m.boundary (m.static fixed mem)
      (HLAvariableArray.dvd_emptysizeof m) i]
    simp [HLAvariableArray.offset, ofInt_natCast]
  | true => rfl

/-- A function that is static where the size is fixed. -/
theorem Datatype.sizeof_moved (m : Datatype) (mem : Memory) (p o : Nat) :
    m.member.sizeof mem (if m.member.isVariable then p + o else p) =
      m.member.sizeof mem (p + o) := by
  cases fixed : m.member.isVariable with
  | false => exact m.static fixed mem _ _
  | true => rfl

def Datatype.Measured (mem : Memory) (τ : Datatype) (p : Nat) : Prop :=
  (τ.member.sizeof mem p).toNat = τ.extent mem p

/-- What measures rightly is of a size that a word holds. -/
theorem Datatype.Measured.fits {mem : Memory} {τ : Datatype} {p : Nat}
    (measured : τ.Measured mem p) : τ.extent mem p < 2 ^ 64 :=
  measured ▸ (τ.member.sizeof mem p).toNat_lt

section Elements

variable {m : Datatype} {mem : Memory} {p : Nat} {start : UInt64} {n : Nat}

/-- The elements of an array that are measured rightly, where the packing has them. -/
theorem elements_laid
    (fits : packed (fun o => m.extent mem (p + o)) m.member.octetBoundary.toNat start.toNat n
      < 2 ^ 64)
    (measured : ∀ i < n, m.extent mem (p + (counted m.member mem p start i).toNat) < 2 ^ 64 →
      m.Measured mem (p + (counted m.member mem p start i).toNat)) :
    (∀ i < n, m.Measured mem (p + (counted m.member mem p start i).toNat)) ∧
      Laid start.toNat ((List.range n).map fun i => ((counted m.member mem p start i).toNat,
        (counted m.member mem p start i).toNat +
          (m.member.sizeof mem (p + (counted m.member mem p start i).toNat)).toNat))
        (packed (fun o => m.extent mem (p + o)) m.member.octetBoundary.toNat start.toNat n) := by
  have placed := fun i (within : i < n) =>
    @counted_place _ _ _ _ (fun o => m.extent mem (p + o)) _ m.boundary fits measured _ within
  have all : ∀ i < n, m.Measured mem (p + (counted m.member mem p start i).toNat) := by
    intro i within
    have ends := @place_end_le_packed (fun o => m.extent mem (p + o))
      m.member.octetBoundary.toNat start.toNat _ _ within
    apply measured i within
    rw [placed i within]
    omega
  refine ⟨all, ?_⟩
  rw [List.map_congr_left (g := fun i =>
    (place (fun o => m.extent mem (p + o)) m.member.octetBoundary.toNat start.toNat i,
      place (fun o => m.extent mem (p + o)) m.member.octetBoundary.toNat start.toNat i +
        m.extent mem (p +
          place (fun o => m.extent mem (p + o)) m.member.octetBoundary.toNat start.toNat i)))
    fun i member => ?_]
  · exact laid_places n
  · have within := List.mem_range.mp member
    rw [all i within, placed i within]

theorem last_element
    (fits : packed (fun o => m.extent mem (p + o)) m.member.octetBoundary.toNat start.toNat (n + 1)
      < 2 ^ 64)
    (measured : ∀ i < n + 1, m.extent mem (p + (counted m.member mem p start i).toNat) < 2 ^ 64 →
      m.Measured mem (p + (counted m.member mem p start i).toNat)) :
    (counted m.member mem p start n +
        m.member.sizeof mem (p + (counted m.member mem p start n).toNat)).toNat =
      packed (fun o => m.extent mem (p + o)) m.member.octetBoundary.toNat start.toNat (n + 1) := by
  have last := (elements_laid fits measured).1 n (Nat.lt_succ_self n)
  have placed := @counted_place _ _ _ _ (fun o => m.extent mem (p + o)) _ m.boundary fits measured _
    (Nat.lt_succ_self n)
  have ends : (counted m.member mem p start n).toNat +
      (m.member.sizeof mem (p + (counted m.member mem p start n).toNat)).toNat =
      packed (fun o => m.extent mem (p + o)) m.member.octetBoundary.toNat start.toNat (n + 1) := by
    rw [last, placed]
    rfl
  rw [add_toNat (by rw [ends]; exact fits), ends]

end Elements

/-! ## Fields -/

theorem Fields.le_extent (mem : Memory) (p : Nat) : ∀ (fs : Fields) (offs : Nat),
    offs ≤ fs.extent mem p offs
  | .fixedEnd, offs => Nat.le_refl offs
  | .field _ m n, offs => by
    have starts := le_alignUp offs m.member.octetBoundary.toNat
    have others := n.le_extent mem p (alignUp offs m.member.octetBoundary.toNat +
      m.extent mem (p + alignUp offs m.member.octetBoundary.toNat))
    rw [Fields.extent]
    omega

theorem Fields.extent_of_dvd (mem : Memory) (p : Nat) (e : Int) {m : Datatype} (n : Fields)
    {offs : Nat} (aligned : m.member.octetBoundary.toNat ∣ offs) :
    (Fields.field e m n).extent mem p offs = n.extent mem p (offs + m.extent mem (p + offs)) := by
  rw [Fields.extent, alignUp_of_dvd aligned]

theorem Fields.extent_alignUp (mem : Memory) (p : Nat) (e : Int) (m : Datatype) (n : Fields)
    (offs : Nat) :
    (Fields.field e m n).extent mem p (alignUp offs m.member.octetBoundary.toNat) =
      (Fields.field e m n).extent mem p offs := by
  rw [Fields.extent_of_dvd mem p e n (dvd_alignUp offs m.boundary.positive), Fields.extent]

/-- The size of a fixed record's list, at a field with another one behind it. -/
theorem HLAfixedField.sizeof_more {M : Member} {N : FieldList} (more : N.memberBoundary ≠ 0)
    (hasVariable : Bool) (mem : Memory) (this : Nat) (offs : UInt64) :
    HLAfixedField.sizeof M N hasVariable mem this offs =
      N.sizeof mem (next hasVariable this (padded M N mem this offs))
        (offs + padded M N mem this offs) := by
  rw [HLAfixedField.sizeof, if_pos more]

theorem Boundary.nonzero {b : UInt64} (h : Boundary b) : b ≠ 0 := by
  rcases h with rfl | rfl | rfl | rfl <;> decide

/-- From a field that measures rightly to the next one. -/
theorem Fields.next_field {mem : Memory} {p : Nat} {m m' : Datatype} {e' : Int} {n' : Fields}
    {this : Nat} {offs : UInt64} {hasVariable : Bool}
    (here : m.member.sizeof mem this = m.member.sizeof mem (p + offs.toNat))
    (measured : m.Measured mem (p + offs.toNat))
    (fits : alignUp (offs.toNat + m.extent mem (p + offs.toNat)) m'.member.octetBoundary.toNat
      < 2 ^ 64) :
    let size := HLAfixedField.padded m.member (Fields.field e' m' n').list mem this offs
    (offs + size).toNat =
        alignUp (offs.toNat + m.extent mem (p + offs.toNat)) m'.member.octetBoundary.toNat ∧
      (hasVariable = true → this = p + offs.toNat →
        HLAfixedField.next hasVariable this size = p + (offs + size).toNat) := by
  have grows := le_alignUp (offs.toNat + m.extent mem (p + offs.toNat))
    m'.member.octetBoundary.toNat
  have sized : (m.member.sizeof mem this).toNat = m.extent mem (p + offs.toNat) := by
    rw [here]
    exact measured
  have ends : (offs + m.member.sizeof mem this).toNat =
      offs.toNat + m.extent mem (p + offs.toNat) := by
    rw [add_toNat (by rw [sized]; omega), sized]
  have padded := padded_toNat (n := offs + m.member.sizeof mem this) m'.boundary
    (by rw [ends]; exact fits)
  rw [ends] at padded
  have size_toNat : (HLAfixedField.padded m.member (Fields.field e' m' n').list mem this offs).toNat =
      m.extent mem (p + offs.toNat) +
        pad (offs.toNat + m.extent mem (p + offs.toNat)) m'.member.octetBoundary.toNat := by
    have room : m.extent mem (p + offs.toNat) +
        pad (offs.toNat + m.extent mem (p + offs.toNat)) m'.member.octetBoundary.toNat < 2 ^ 64 := by
      rw [alignUp] at fits
      omega
    have padding : (padding (offs + m.member.sizeof mem this)
        (Fields.field e' m' n').list.memberBoundary).toNat =
        pad (offs.toNat + m.extent mem (p + offs.toNat)) m'.member.octetBoundary.toNat := by
      rw [← ends]
      exact padding_toNat m'.boundary _
    rw [HLAfixedField.padded, add_toNat (by rw [sized, padding]; exact room), sized, padding]
  have total : (offs +
      HLAfixedField.padded m.member (Fields.field e' m' n').list mem this offs).toNat =
      offs.toNat +
        (HLAfixedField.padded m.member (Fields.field e' m' n').list mem this offs).toNat := by
    apply add_toNat
    rw [size_toNat]
    rw [alignUp] at fits
    omega
  refine ⟨?_, fun variable_sized start => ?_⟩
  · rw [total, size_toNat, alignUp]
    omega
  · rw [HLAfixedField.next, if_pos variable_sized, total, start]
    omega

theorem Fields.laid (mem : Memory) (p : Nat) : ∀ (n : Fields) (e : Int) (m : Datatype) (this : Nat)
    (offs : UInt64), m.member.octetBoundary.toNat ∣ offs.toNat →
    ((Fields.field e m n).list.isVariable = true → this = p + offs.toNat) →
    (Fields.field e m n).extent mem p offs.toNat < 2 ^ 64 →
    (∀ c ∈ (Fields.field e m n).parts mem this offs,
      c.type.extent mem (p + c.offset.toNat) < 2 ^ 64 →
        c.type.Measured mem (p + c.offset.toNat)) →
    (∀ c ∈ (Fields.field e m n).parts mem this offs,
      c.type.Measured mem (p + c.offset.toNat)) ∧
    Laid offs.toNat (((Fields.field e m n).parts mem this offs).map (Part.range mem p))
      ((Fields.field e m n).extent mem p offs.toNat) ∧
    ((Fields.field e m n).list.sizeof mem this offs).toNat =
      (Fields.field e m n).extent mem p offs.toNat
  | .fixedEnd, e, m, this, offs, aligned, here, fits, measured => by
    rw [Fields.extent_of_dvd mem p e _ aligned, Fields.extent] at fits ⊢
    have same : m.member.sizeof mem this = m.member.sizeof mem (p + offs.toNat) := by
      cases fixed : m.member.isVariable with
      | false => exact m.static fixed mem _ _
      | true => rw [here (by simp [Fields.list, HLAfixedField.ofFields, HLAfixedField, fixed])]
    have first : m.Measured mem (p + offs.toNat) :=
      measured _ (List.mem_singleton_self _) (by dsimp only; omega)
    have only : (Fields.field e m .fixedEnd).parts mem this offs = [⟨e, offs, m⟩] := rfl
    rw [only]
    refine ⟨List.forall_mem_singleton.mpr first, ?_, ?_⟩
    · rw [← first]
      exact .single (Nat.le_refl _) (Nat.le_add_right _ _)
    · have size : (Fields.field e m .fixedEnd).list.sizeof mem this offs =
        offs + m.member.sizeof mem this := by
        simp [Fields.list, HLAfixedField.ofFields, HLAfixedField, HLAfixedField.sizeof, HLAfixedEnd]
      rw [size, same, add_toNat (by rw [first]; exact fits), first]
  | .field e' m' n', e, m, this, offs, aligned, here, fits, measured => by
    rw [Fields.extent_of_dvd mem p e _ aligned] at fits ⊢
    rw [← Fields.extent_alignUp] at fits ⊢
    have after := Fields.le_extent mem p (.field e' m' n')
      (alignUp (offs.toNat + m.extent mem (p + offs.toNat)) m'.member.octetBoundary.toNat)
    have grows := le_alignUp (offs.toNat + m.extent mem (p + offs.toNat))
      m'.member.octetBoundary.toNat
    have same : m.member.sizeof mem this = m.member.sizeof mem (p + offs.toNat) := by
      cases fixed : m.member.isVariable with
      | false => exact m.static fixed mem _ _
      | true => rw [here (by simp [Fields.list, HLAfixedField.ofFields, HLAfixedField, fixed])]
    have first : m.Measured mem (p + offs.toNat) :=
      measured _ List.mem_cons_self (by dsimp only; omega)
    obtain ⟨placed, moved⟩ := @Fields.next_field mem p m m' e' n' this offs
      (m.member.isVariable || (Fields.field e' m' n').list.isVariable) same first (by omega)
    have others := Fields.laid mem p n' e' m'
      (HLAfixedField.next (m.member.isVariable || (Fields.field e' m' n').list.isVariable) this
        (HLAfixedField.padded m.member (Fields.field e' m' n').list mem this offs))
      (offs + HLAfixedField.padded m.member (Fields.field e' m' n').list mem this offs)
      (by rw [placed]; exact dvd_alignUp _ m'.boundary.positive)
      (fun sized => moved (by rw [sized, Bool.or_true])
        (here (by simp [Fields.list, HLAfixedField.ofFields, HLAfixedField] at sized ⊢; simp [sized])))
      (by rw [placed]; exact fits) (fun c member => measured c (List.mem_cons_of_mem _ member))
    rw [placed] at others
    obtain ⟨all, laid, sized⟩ := others
    refine ⟨List.forall_mem_cons.mpr ⟨first, all⟩, ?_, ?_⟩
    · refine .cons (Nat.le_refl _) (Nat.le_add_right _ _) ?_
      refine laid.earlier ?_
      rw [first]
      exact grows
    · rw [← sized]
      exact congrArg UInt64.toNat (HLAfixedField.sizeof_more (m'.boundary.nonzero) _ mem this offs)

theorem Fields.aligned (mem : Memory) : ∀ (n : Fields) (e : Int) (m : Datatype) (this : Nat)
    (offs : UInt64), m.member.octetBoundary.toNat ∣ offs.toNat →
    ∀ c ∈ (Fields.field e m n).parts mem this offs,
      c.type.member.octetBoundary.toNat ∣ c.offset.toNat
  | .fixedEnd, e, m, this, offs, aligned => List.forall_mem_singleton.mpr aligned
  | .field e' m' n', e, m, this, offs, aligned => by
    refine List.forall_mem_cons.mpr ⟨aligned, Fields.aligned mem n' e' m' _ _ ?_⟩
    rw [HLAfixedField.padded, ← UInt64.add_assoc]
    exact dvd_padded m'.boundary _

/-- `field<>` gets to the field that it is asked for. -/
theorem Fields.accessed (mem : Memory) (d : Int) (c : Part) : ∀ (n : Fields) (e : Int)
    (m : Datatype) (this : Nat) (offs : UInt64),
    ((Fields.field e m n).parts mem this offs).find? (fun c => c.index = d) = some c →
    (Fields.field e m n).list.field_offsetof mem this d offs = some c.offset
  | n, e, m, this, offs, found => by
    by_cases asked : d = e
    · have here : c = ⟨e, offs, m⟩ := by simpa [Fields.parts, asked] using found.symm
      simp [Fields.list, HLAfixedField.ofFields, HLAfixedField, HLAfixedField.field_offsetof,
        asked, here]
    · have later : (n.parts mem (HLAfixedField.next (m.member.isVariable || n.list.isVariable) this
          (HLAfixedField.padded m.member n.list mem this offs))
          (offs + HLAfixedField.padded m.member n.list mem this offs)).find?
            (fun c => c.index = d) = some c := by
        simpa [Fields.parts, Ne.symm asked] using found
      cases n with
      | fixedEnd => simp [Fields.parts] at later
      | field e' m' n' =>
        have rest := Fields.accessed mem d c n' e' m' _ _ later
        have more : (Fields.field e' m' n').list.memberBoundary ≠ 0 := m'.boundary.nonzero
        change HLAfixedField.field_offsetof e m.member _ _ mem this d offs = _
        rw [HLAfixedField.field_offsetof, if_pos asked, if_neg more]
        exact rest

/-- The specialisation for fields of fixed size says what the generic one says. -/
theorem Fields.specialised (mem : Memory) : ∀ (n : Fields), n.list.isVariable = false →
    n.generic.memberBoundary = n.list.memberBoundary ∧
    ∀ p q offs, (∀ d, n.list.field_offsetof mem p d offs = n.generic.field_offsetof mem q d offs) ∧
      n.list.sizeof mem p offs = n.generic.sizeof mem q offs
  | .fixedEnd, _ => ⟨rfl, fun _ _ _ => ⟨fun _ => rfl, rfl⟩⟩
  | .field e m n, fixed => by
    obtain ⟨first, others⟩ : m.member.isVariable = false ∧ n.list.isVariable = false :=
      Bool.or_eq_false_iff.mp fixed
    obtain ⟨boundary, same⟩ := n.specialised mem others
    refine ⟨rfl, fun p q offs => ?_⟩
    have padded : HLAfixedField.padded m.member n.list mem p offs =
        HLAfixedField.padded m.member n.generic mem q offs := by
      rw [HLAfixedField.padded, HLAfixedField.padded, boundary, m.static first mem p q]
    simp only [Fields.list, Fields.generic, HLAfixedField.ofFields, HLAfixedField,
      HLAfixedField.field_offsetof, HLAfixedField.sizeof, boundary, padded, m.static first mem p q]
    constructor
    · intro d
      split
      · split
        · rfl
        · exact (same _ _ _).1 d
      · rfl
    · split
      · exact (same _ _ _).2
      · rfl

/-! ## Alternatives -/

theorem Alternatives.specialised (mem : Memory) : ∀ (n : Alternatives), n.list.isVariable = false →
    n.generic.octetBoundary = n.list.octetBoundary ∧ n.generic.has_field = n.list.has_field ∧
    ∀ p q d, n.list.field_sizeof mem p d = n.generic.field_sizeof mem q d
  | .variantEnd, _ => ⟨rfl, rfl, fun _ _ _ => rfl⟩
  | .field D e m n, fixed => by
    obtain ⟨first, others⟩ : m.member.isVariable = false ∧ n.list.isVariable = false :=
      Bool.or_eq_false_iff.mp fixed
    obtain ⟨boundary, enumerators, same⟩ := n.specialised mem others
    simp only [Alternatives.list, Alternatives.generic, HLAvariantField.ofAlternatives,
      HLAvariantField, boundary, enumerators, true_and]
    intro p q d
    rw [m.static first mem p q, same p q d]

theorem Alternatives.has_field_eq (d : Int) (as : Alternatives) :
    as.list.has_field d = (as.included d).isSome := by
  induction as using Alternatives.list_induction with
  | stop => rfl
  | more D e m n others =>
    change (D.includes d || n.list.has_field d) = _
    rw [others, Alternatives.included]
    cases D.includes d <;> rfl

theorem Alternatives.field_sizeof_eq (mem : Memory) (p : Nat) (d : Int) (as : Alternatives) :
    as.list.field_sizeof mem p d =
      ((as.indexed d).map fun m => m.member.sizeof mem p).getD 0 := by
  induction as using Alternatives.list_induction with
  | stop => rfl
  | more D e m n others =>
    change (if d = e then _ else n.list.field_sizeof mem p d) = _
    rw [others, Alternatives.indexed]
    split <;> rfl

theorem Alternatives.extent_eq (mem : Memory) (d : Int) (p : Nat) (as : Alternatives) :
    as.extent mem d p = ((as.included d).map fun a => a.2.extent mem p).getD 0 := by
  induction as using Alternatives.list_induction with
  | stop => rfl
  | more D e m n others =>
    rw [Alternatives.extent, others, Alternatives.included]
    split <;> rfl

theorem Alternatives.included_mem {d : Int} {a : Int × Datatype} : ∀ {as : Alternatives},
    as.included d = some a → a.2 ∈ as.types
  | .field D e m n, found => by
    rw [Alternatives.included] at found
    split at found
    · obtain rfl := Option.some.inj found
      exact List.mem_cons_self
    · exact List.mem_cons_of_mem _ (Alternatives.included_mem found)

theorem Alternatives.dvd_boundary {σ : Datatype} : ∀ {as : Alternatives}, σ ∈ as.types →
    σ.member.octetBoundary.toNat ∣ as.list.octetBoundary.toNat
  | .field D e m .variantEnd, member => by
    obtain rfl := List.mem_singleton.mp member
    exact σ.boundary.dvd_max_left (.inl rfl)
  | .field D e m (.field D' e' m' n'), member => by
    have rest := m'.boundary.max_orEnd n'.boundary
    rcases List.mem_cons.mp member with rfl | later
    · exact σ.boundary.dvd_max_left (.inr rest)
    · exact (@Alternatives.dvd_boundary σ (.field D' e' m' n') later).trans
        (m.boundary.dvd_max_right rest)

/-! ## One level of a type -/

theorem Storage.sizeof_toNat (s : Storage) : s.sizeof.toNat = s.width.octets := by
  obtain ⟨width, _, _⟩ := s
  cases width <;> rfl

theorem HLAvariantRecord.emptysizeof_toNat (dm : Storage) {R : AlternativeList}
    (bounded : Boundary R.octetBoundary) :
    (emptysizeof dm R).toNat = alignUp dm.width.octets R.octetBoundary.toNat := by
  rw [← dm.sizeof_toNat]
  apply padded_toNat bounded
  rcases bounded with h | h | h | h <;> rcases Boundary.storage dm with g | g | g | g <;>
    rw [h, g] <;> decide

theorem Datatype.parts_fixedArray (mem : Memory) (m : Datatype) (n p : Nat) :
    (Datatype.fixedArray m n).parts mem p =
      (List.range n).map fun i => ⟨i, counted m.member mem p 0 i, m⟩ := by
  simp only [Datatype.parts, HLAfixedArray.offset_eq]

theorem Datatype.parts_variableArray (mem : Memory) (m : Datatype) (p : Nat) :
    (Datatype.variableArray m).parts mem p =
      (List.range (HLAvariableArray.size mem p).toNat).map fun i =>
        ⟨i, counted m.member mem p (HLAvariableArray.emptysizeof m.member) i, m⟩ := by
  simp only [Datatype.parts, HLAvariableArray.offset_eq]

theorem Datatype.parts_types {mem : Memory} {τ : Datatype} {p : Nat} {c : Part}
    (part : c ∈ τ.parts mem p) : c.type ∈ τ.components := by
  have fields : ∀ (fs : Fields) (this : Nat) (offs : UInt64), c ∈ fs.parts mem this offs →
      c.type ∈ fs.types := by
    intro fs
    induction fs using Fields.types.induct with
    | case1 => intro this offs member; simp [Fields.parts] at member
    | case2 e m n ih =>
      intro this offs member
      rcases List.mem_cons.mp member with rfl | later
      · exact List.mem_cons_self
      · exact List.mem_cons_of_mem _ (ih _ _ later)
  cases τ with
  | basicType s => simp [Datatype.parts] at part
  | enumeratedType r => simp [Datatype.parts] at part
  | fixedArray m n =>
    obtain ⟨i, _, rfl⟩ := List.mem_map.mp part
    exact List.mem_singleton_self m
  | variableArray m =>
    obtain ⟨i, _, rfl⟩ := List.mem_map.mp part
    exact List.mem_singleton_self m
  | fixedRecord e m n => exact fields (.field e m n) p 0 part
  | variantRecord dm d e m n =>
    obtain ⟨a, found, rfl⟩ := List.mem_map.mp part
    exact Alternatives.included_mem (Option.mem_toList.mp found)

/-- A component whose extent a word holds measures what it extends over. -/
def Datatype.PartsMeasured (mem : Memory) (τ : Datatype) (p : Nat) : Prop :=
  ∀ c ∈ τ.parts mem p, c.type.extent mem (p + c.offset.toNat) < 2 ^ 64 →
    c.type.Measured mem (p + c.offset.toNat)

theorem Datatype.laid {mem : Memory} {τ : Datatype} {p : Nat}
    (fits : τ.extent mem p < 2 ^ 64) (measured : τ.PartsMeasured mem p) :
    (∀ c ∈ τ.parts mem p, c.type.Measured mem (p + c.offset.toNat)) ∧
      Laid 0 (τ.ranges mem p) (τ.extent mem p) := by
  cases τ with
  | basicType s =>
    refine ⟨by simp [Datatype.parts], ?_⟩
    change Laid 0 [(0, s.sizeof.toNat)] s.width.octets
    rw [s.sizeof_toNat]
    exact .single (Nat.le_refl 0) (Nat.zero_le _)
  | enumeratedType r =>
    refine ⟨by simp [Datatype.parts], ?_⟩
    change Laid 0 [(0, r.sizeof.toNat)] r.width.octets
    rw [r.sizeof_toNat]
    exact .single (Nat.le_refl 0) (Nat.zero_le _)
  | fixedArray m n =>
    rw [Datatype.PartsMeasured, Datatype.parts_fixedArray] at measured
    rw [Datatype.ranges, Datatype.parts_fixedArray]
    simp only [List.forall_mem_map, List.mem_range, List.map_map] at measured ⊢
    exact @elements_laid m mem p 0 n fits measured
  | variableArray m =>
    rw [Datatype.PartsMeasured, Datatype.parts_variableArray] at measured
    rw [Datatype.ranges, Datatype.parts_variableArray]
    simp only [List.forall_mem_map, List.mem_range, List.map_map] at measured ⊢
    rw [Datatype.extent, ← HLAvariableArray.emptysizeof_toNat] at fits ⊢
    obtain ⟨all, laid⟩ := elements_laid fits measured
    exact ⟨all, .cons (Nat.le_refl 0) (Nat.zero_le _) laid⟩
  | fixedRecord e m n =>
    have extent : (Datatype.fixedRecord e m n).extent mem p =
        (Fields.field e m n).extent mem p 0 := by
      rw [Fields.extent_of_dvd mem p e n (Nat.dvd_zero _), Nat.zero_add]
      rfl
    rw [extent] at fits ⊢
    obtain ⟨all, laid, _⟩ := Fields.laid mem p n e m p 0 (Nat.dvd_zero _) (fun _ => rfl) fits
      measured
    exact ⟨all, laid⟩
  | variantRecord dm d e m n =>
    have bounded : Boundary (Alternatives.field d e m n).list.octetBoundary :=
      m.boundary.max_orEnd n.boundary
    have extent : (Datatype.variantRecord dm d e m n).extent mem p =
        (HLAvariantRecord.emptysizeof dm (Alternatives.field d e m n).list).toNat +
          (Alternatives.field d e m n).extent mem (dm.toInt mem p)
            (p + (HLAvariantRecord.emptysizeof dm (Alternatives.field d e m n).list).toNat) := by
      rw [HLAvariantRecord.emptysizeof_toNat dm bounded]
      rfl
    rw [extent, Alternatives.extent_eq] at fits ⊢
    unfold Datatype.PartsMeasured at measured
    unfold Datatype.ranges
    simp only [Datatype.parts, Datatype.header, Option.toList_some, List.map_cons, List.map_nil,
      List.cons_append, List.nil_append] at measured ⊢
    cases found : (Alternatives.field d e m n).included (dm.toInt mem p) with
    | none => exact ⟨by simp, .single (Nat.le_refl 0) (Nat.zero_le _)⟩
    | some a =>
      simp only [found, Option.map_some, Option.getD_some, Option.toList_some, List.map_cons,
        List.map_nil, List.forall_mem_singleton] at fits measured ⊢
      have content := measured (by omega)
      refine ⟨content, .cons (Nat.le_refl 0) (Nat.zero_le _) ?_⟩
      rw [Part.range, content]
      exact .single (Nat.le_refl _) (Nat.le_add_right _ _)

theorem HLAfixedArray.sizeof_succ (m : Datatype) (n : Nat) (mem : Memory) (p : Nat) :
    (Datatype.fixedArray m (n + 1)).member.sizeof mem p =
      counted m.member mem p 0 n + m.member.sizeof mem (p + (counted m.member mem p 0 n).toNat) := by
  have last : ((n + 1 : Nat) : Int) - 1 = n := by omega
  change HLAfixedArray.sizeof m.member (n + 1) m.member.isVariable mem p = _
  rw [HLAfixedArray.sizeof, last, HLAfixedArray.offset_eq]
  exact congrArg (_ + ·) (m.sizeof_moved mem p _)

theorem HLAvariableArray.sizeof_succ (m : Datatype) (n : Nat) (mem : Memory) (p : Nat)
    (count : HLAvariableArray.size mem p = (n + 1 : Nat)) :
    (Datatype.variableArray m).member.sizeof mem p =
      counted m.member mem p (emptysizeof m.member) n +
        m.member.sizeof mem (p + (counted m.member mem p (emptysizeof m.member) n).toNat) := by
  have last : ((n + 1 : Nat) : Int) - 1 = n := by omega
  change HLAvariableArray.sizeof m.member m.member.isVariable mem p = _
  rw [HLAvariableArray.sizeof, count, if_pos (by omega), last, HLAvariableArray.offset_eq]
  exact congrArg (_ + ·) (m.sizeof_moved mem p _)

/-- An array of fixed size without elements measures what closes the last element's padding. -/
theorem HLAfixedArray.sizeof_zero (m : Datatype) (mem : Memory) (p : Nat) :
    HLAfixedArray.sizeof m.member 0 true mem p = m.member.sizeof mem p ∧
      HLAfixedArray.sizeof m.member 0 false mem p + stride m.member mem p =
        m.member.sizeof mem p := by
  constructor
  · simp [HLAfixedArray.sizeof, HLAfixedArray.offset, counted]
  · simp only [HLAfixedArray.sizeof, HLAfixedArray.offset, Bool.false_eq_true, if_false]
    rw [show UInt64.ofInt (((0 : Nat) : Int) - 1) = -1 from rfl]
    grind

theorem padding_zero {b : UInt64} (h : Boundary b) : padding 0 b = 0 := by
  apply UInt64.toNat.inj
  rw [padding_toNat h]
  exact pad_of_dvd (Nat.dvd_zero _)

theorem HLAfixedArray.regular {m : Datatype} {n : Nat} {mem : Memory} {p : Nat}
    (fits : (Datatype.fixedArray m n).extent mem p < 2 ^ 64)
    (measured : (Datatype.fixedArray m n).PartsMeasured mem p) :
    (Datatype.fixedArray m n).Measured mem p ∧ (Datatype.fixedArray m n).Specialised mem p ↔
      0 < n ∨ m.member.sizeof mem p = 0 := by
  cases n with
  | zero =>
    obtain ⟨whole, closed⟩ := HLAfixedArray.sizeof_zero m mem p
    have empty : (Datatype.fixedArray m 0).Measured mem p ↔
        (Datatype.fixedArray m 0).member.sizeof mem p = 0 :=
      ⟨fun h => UInt64.toNat.inj h, fun h => congrArg UInt64.toNat h⟩
    rw [empty]
    change HLAfixedArray.sizeof m.member 0 m.member.isVariable mem p = 0 ∧
      (m.member.isVariable = false → _) ↔ _
    cases fixed : m.member.isVariable with
    | true => simp [whole]
    | false =>
      simp only [Nat.lt_irrefl, false_or, forall_const, whole]
      constructor
      · rintro ⟨nothing, _, same⟩
        rw [← same, nothing]
      · intro nothing
        rw [nothing, stride, nothing, padding_zero m.boundary] at closed
        have zero : HLAfixedArray.sizeof m.member 0 false mem p = 0 := by simpa using closed
        exact ⟨zero, by simp, by rw [zero, nothing]⟩
  | succ n =>
    rw [Datatype.PartsMeasured, Datatype.parts_fixedArray] at measured
    simp only [List.forall_mem_map, List.mem_range] at measured
    have right : (Datatype.fixedArray m (n + 1)).Measured mem p := by
      rw [Datatype.Measured, HLAfixedArray.sizeof_succ]
      exact @last_element m mem p 0 n fits measured
    refine iff_of_true ⟨right, fun fixed => ?_⟩ (.inl (Nat.succ_pos n))
    have offsets := fun i => HLAfixedArray.offset_eq m mem p i
    have size := HLAfixedArray.sizeof_succ m n mem p
    change HLAfixedArray.sizeof m.member (n + 1) m.member.isVariable mem p = _ at size
    rw [fixed] at offsets size
    have last : ((n + 1 : Nat) : Int) - 1 = n := by omega
    refine ⟨fun i _ => offsets i, ?_⟩
    rw [size, HLAfixedArray.sizeof, last]
    rfl

theorem HLAvariableArray.regular {m : Datatype} {mem : Memory} {p : Nat}
    (fits : (Datatype.variableArray m).extent mem p < 2 ^ 64)
    (measured : (Datatype.variableArray m).PartsMeasured mem p) :
    (Datatype.variableArray m).Measured mem p ∧ (Datatype.variableArray m).Specialised mem p := by
  have offsets := fun i => HLAvariableArray.offset_eq m mem p i
  have extent : (Datatype.variableArray m).extent mem p =
      packed (fun o => m.extent mem (p + o)) m.member.octetBoundary.toNat
        (emptysizeof m.member).toNat (size mem p).toNat := by
    rw [HLAvariableArray.emptysizeof_toNat]
    rfl
  rcases Int.lt_or_le 0 (size mem p) with some_elements | none
  · obtain ⟨n, count⟩ : ∃ n : Nat, size mem p = (n + 1 : Nat) := ⟨(size mem p).toNat - 1, by omega⟩
    have total := HLAvariableArray.sizeof_succ m n mem p count
    rw [Datatype.PartsMeasured, Datatype.parts_variableArray] at measured
    simp only [List.forall_mem_map, List.mem_range] at measured
    rw [extent, count, Int.toNat_natCast] at fits
    rw [count, Int.toNat_natCast] at measured
    constructor
    · rw [Datatype.Measured, total, extent, count, Int.toNat_natCast]
      exact last_element fits measured
    · intro fixed
      change HLAvariableArray.sizeof m.member m.member.isVariable mem p = _ at total
      rw [fixed] at offsets total
      have last : ((n + 1 : Nat) : Int) - 1 = n := by omega
      refine ⟨fun i _ => offsets i, ?_⟩
      rw [total, HLAvariableArray.sizeof, count, if_pos (by omega), last]
      rfl
  · have small : ∀ hasVariable, HLAvariableArray.sizeof m.member hasVariable mem p =
        emptysizeof m.member := fun hasVariable => if_neg (by omega)
    constructor
    · rw [Datatype.Measured, extent, Int.toNat_of_nonpos none]
      exact congrArg UInt64.toNat (small m.member.isVariable)
    · intro fixed
      rw [fixed] at offsets
      exact ⟨fun i _ => offsets i, by rw [small, small]⟩

theorem HLAfixedRecord.regular {e : Int} {m : Datatype} {n : Fields} {mem : Memory} {p : Nat}
    (fits : (Datatype.fixedRecord e m n).extent mem p < 2 ^ 64)
    (measured : (Datatype.fixedRecord e m n).PartsMeasured mem p) :
    (Datatype.fixedRecord e m n).Measured mem p ∧
      (Datatype.fixedRecord e m n).Specialised mem p := by
  have extent : (Datatype.fixedRecord e m n).extent mem p =
      (Fields.field e m n).extent mem p 0 := by
    rw [Fields.extent_of_dvd mem p e n (Nat.dvd_zero _), Nat.zero_add]
    rfl
  rw [extent] at fits
  have size := (Fields.laid mem p n e m p 0 (Nat.dvd_zero _) (fun _ => rfl) fits measured).2.2
  constructor
  · rw [Datatype.Measured, extent]
    exact size
  · intro fixed
    exact ((Fields.field e m n).specialised mem fixed).2 p p 0

theorem HLAvariantRecord.sizeof_eq (dm : Storage) (R : Alternatives) (mem : Memory) (p : Nat) :
    HLAvariantRecord.sizeof dm R.list R.list.isVariable mem p =
      if (R.included (dm.toInt mem p)).isSome then
        emptysizeof dm R.list + ((R.indexed (dm.toInt mem p)).map fun m =>
          m.member.sizeof mem (p + (emptysizeof dm R.list).toNat)).getD 0
      else emptysizeof dm R.list := by
  have content : ∀ d, R.list.field_sizeof mem
      (if R.list.isVariable then p + (emptysizeof dm R.list).toNat else p) d =
        R.list.field_sizeof mem (p + (emptysizeof dm R.list).toNat) d := by
    intro d
    cases fixed : R.list.isVariable with
    | false => exact R.static fixed mem _ _ d
    | true => rfl
  simp only [HLAvariantRecord.sizeof, content, Alternatives.has_field_eq,
    Alternatives.field_sizeof_eq]

theorem HLAvariantRecord.specialised (dm : Storage) (R : Alternatives)
    (fixed : R.list.isVariable = false) (mem : Memory) (p : Nat) :
    HLAvariantRecord.sizeof dm R.list false mem p =
      HLAvariantRecord.sizeof dm R.generic true mem p := by
  obtain ⟨boundary, enumerators, same⟩ := R.specialised mem fixed
  simp only [HLAvariantRecord.sizeof, emptysizeof, boundary, enumerators, Bool.false_eq_true,
    if_false, if_true]
  rw [same]

theorem HLAvariantRecord.regular {dm : Storage} {d : Enumerators} {e : Int} {m : Datatype}
    {n : Alternatives} {mem : Memory} {p : Nat}
    (fits : (Datatype.variantRecord dm d e m n).extent mem p < 2 ^ 64)
    (measured : (Datatype.variantRecord dm d e m n).PartsMeasured mem p) :
    (Datatype.variantRecord dm d e m n).Measured mem p ∧
        (Datatype.variantRecord dm d e m n).Specialised mem p ↔
      Regular mem (.variantRecord dm d e m n) p := by
  have specialised : (Datatype.variantRecord dm d e m n).Specialised mem p :=
    fun fixed => HLAvariantRecord.specialised dm _ fixed mem p
  have parts := (Datatype.laid fits measured).1
  have bounded : Boundary (Alternatives.field d e m n).list.octetBoundary :=
    m.boundary.max_orEnd n.boundary
  have extent : (Datatype.variantRecord dm d e m n).extent mem p =
      (emptysizeof dm (Alternatives.field d e m n).list).toNat +
        (Alternatives.field d e m n).extent mem (dm.toInt mem p)
          (p + (emptysizeof dm (Alternatives.field d e m n).list).toNat) := by
    rw [HLAvariantRecord.emptysizeof_toNat dm bounded]
    rfl
  have size := HLAvariantRecord.sizeof_eq dm (.field d e m n) mem p
  rw [and_iff_left specialised, Datatype.Measured]
  change (HLAvariantRecord.sizeof dm (Alternatives.field d e m n).list
    (Alternatives.field d e m n).list.isVariable mem p).toNat = _ ↔ _
  rw [extent, Alternatives.extent_eq] at fits ⊢
  rw [size]
  simp only [Regular]
  simp only [Datatype.parts] at parts
  cases found : (Alternatives.field d e m n).included (dm.toInt mem p) with
  | none => simp
  | some a =>
    simp only [found, Option.map_some, Option.getD_some, Option.toList_some, List.map_cons,
      List.map_nil, List.forall_mem_singleton] at fits parts
    have content : (a.2.member.sizeof mem
        (p + (emptysizeof dm (Alternatives.field d e m n).list).toNat)).toNat =
        a.2.extent mem (p + (emptysizeof dm (Alternatives.field d e m n).list).toNat) := parts
    simp only [Option.isSome_some, if_true, Option.map_some, Option.getD_some, Option.some.injEq,
      forall_eq']
    rw [← content] at fits ⊢
    rw [← add_toNat fits]
    constructor
    · intro same
      exact (UInt64.add_right_inj _).mp (UInt64.toNat.inj same)
    · intro same
      rw [same]

theorem Datatype.regular {mem : Memory} {τ : Datatype} {p : Nat}
    (fits : τ.extent mem p < 2 ^ 64) (measured : τ.PartsMeasured mem p) :
    τ.Measured mem p ∧ τ.Specialised mem p ↔ Regular mem τ p := by
  cases τ with
  | basicType s => exact iff_of_true ⟨s.sizeof_toNat, trivial⟩ trivial
  | enumeratedType r => exact iff_of_true ⟨r.sizeof_toNat, trivial⟩ trivial
  | fixedArray m n => exact HLAfixedArray.regular fits measured
  | variableArray m => exact iff_of_true (HLAvariableArray.regular fits measured) trivial
  | fixedRecord e m n => exact iff_of_true (HLAfixedRecord.regular fits measured) trivial
  | variantRecord dm d e m n => exact HLAvariantRecord.regular fits measured

theorem Datatype.aligned (mem : Memory) (τ : Datatype) (p : Nat) :
    ∀ c ∈ τ.parts mem p, c.type.member.octetBoundary.toNat ∣ c.offset.toNat := by
  cases τ with
  | basicType s => simp [Datatype.parts]
  | enumeratedType r => simp [Datatype.parts]
  | fixedArray m n =>
    rw [Datatype.parts_fixedArray]
    simp only [List.forall_mem_map]
    exact fun i _ => dvd_counted m.boundary (Nat.dvd_zero _) i
  | variableArray m =>
    rw [Datatype.parts_variableArray]
    simp only [List.forall_mem_map]
    exact fun i _ => dvd_counted m.boundary (HLAvariableArray.dvd_emptysizeof m) i
  | fixedRecord e m n => exact Fields.aligned mem n e m p 0 (Nat.dvd_zero _)
  | variantRecord dm d e m n =>
    simp only [Datatype.parts, List.forall_mem_map, Option.mem_toList]
    intro a found
    have bounded : Boundary (Alternatives.field d e m n).list.octetBoundary :=
      m.boundary.max_orEnd n.boundary
    exact (Alternatives.dvd_boundary (Alternatives.included_mem found)).trans (dvd_padded bounded _)

/-- Where the components measure what they extend over, the layout is consistent exactly if
the size is right, too. -/
theorem consistent_iff_regular {mem : Memory} {τ : Datatype} {p : Nat}
    (fits : τ.extent mem p < 2 ^ 64) (measured : τ.PartsMeasured mem p) :
    Consistent mem τ p ↔ Regular mem τ p := by
  have laid := (Datatype.laid fits measured).2
  rw [← Datatype.regular fits measured]
  constructor
  · intro consistent
    refine ⟨?_, consistent.specialised⟩
    rw [Datatype.Measured, consistent.exact, laid.getLast]
  · rintro ⟨right, specialised⟩
    exact
      { aligned := τ.aligned mem p
        disjoint := laid.pairwise.imp fun apart => .inl apart
        exact := by rw [right, laid.getLast]
        specialised
        accessed := by
          rintro e m n rfl d c found
          exact Fields.accessed mem d c n e m p 0 found }

/-! ## Every level -/

theorem nested_iff {mem : Memory} {τ : Datatype} {p : Nat} {P : Datatype → Nat → Prop} :
    (∀ σ q, Nested mem τ p σ q → P σ q) ↔ P τ p ∧ ∀ c ∈ τ.parts mem p,
      ∀ σ q, Nested mem c.type (p + c.offset.toNat) σ q → P σ q := by
  constructor
  · intro all
    exact ⟨all τ p (.here τ p), fun c part σ q inside => all σ q (.inside part inside)⟩
  · rintro ⟨here, parts⟩ σ q nested
    cases nested with
    | here => exact here
    | inside part rest => exact parts _ part σ q rest

theorem measured_of_regular (mem : Memory) (τ : Datatype) : ∀ p, τ.extent mem p < 2 ^ 64 →
    (∀ σ q, Nested mem τ p σ q → Regular mem σ q) → τ.Measured mem p := by
  induction τ using Datatype.components_induction with
  | built τ ih =>
    intro p fits regular
    obtain ⟨here, parts⟩ := nested_iff.mp regular
    have measured : τ.PartsMeasured mem p := fun c part fitting =>
      ih c.type (Datatype.parts_types part) _ fitting (parts c part)
    exact ((Datatype.regular fits measured).mpr here).1

end Certi.Libhla
