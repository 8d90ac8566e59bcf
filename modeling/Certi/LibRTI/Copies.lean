import Certi.LibRTI.Elements
import Mathlib.Data.List.Forall2
import Mathlib.Logic.Relation

/-!
# Copies of elements

The elements of `ieee1516-2010/encoding` as objects in memory that point to one
another, their copy constructors, and what a copy shows while operations on the
original go on.
-/
namespace Certi.Encoding

open Heap

abbrev Memory := Cells (Shape Address)

/-! ## Objects in memory -/

namespace Shape

variable {α β : Type}

def map (f : α → β) : Shape α → Shape β
  | basic b => .basic b
  | HLAopaqueData octets bufferSize => .HLAopaqueData octets bufferSize
  | HLAfixedArray prototype elements => .HLAfixedArray (f prototype) (elements.map f)
  | HLAvariableArray prototype elements => .HLAvariableArray (f prototype) (elements.map f)
  | HLAfixedRecord elements => .HLAfixedRecord (elements.map f)
  | HLAvariantRecord discriminant entries =>
    .HLAvariantRecord (f discriminant) (entries.map (Prod.map f f))

/-- The objects that an object points to. -/
def parts : Shape α → List α
  | basic _ | HLAopaqueData _ _ => []
  | HLAfixedArray prototype elements | HLAvariableArray prototype elements =>
    prototype :: elements
  | HLAfixedRecord elements => elements
  | HLAvariantRecord discriminant entries =>
    discriminant :: entries.flatMap fun entry => [entry.1, entry.2]

end Shape

/-- The methods of an object that is gone. -/
def Methods.dangling : Methods :=
  ⟨.error .dangling, .error .dangling, .error .dangling, .error .dangling⟩

/-- The methods of the object at `a`, whose pointers are followed `fuel` deep. -/
def methodsAt : Nat → Memory → Address → Methods
  | 0, _, _ => .dangling
  | fuel + 1, m, a =>
    match cell m a with
    | none => .dangling
    | some object => (object.map (methodsAt fuel m)).methods

/-! ## The copy constructors -/

def create (allocator : Allocator) (m : Memory) (object : Shape Address) : Address × Memory :=
  (place allocator m, allocate allocator m object)

/-- The loop that clones the elements of a vector. -/
def cloneAll (clone : Memory → Address → Option (Address × Memory)) :
    Memory → List Address → Option (List Address × Memory)
  | m, [] => some ([], m)
  | m, a :: rest => do
    let (a', m₁) ← clone m a
    let (rest', m₂) ← cloneAll clone m₁ rest
    return (a' :: rest', m₂)

/-- `if(a_rhs._tabOctet[i])`: an octet that is zero is not written. -/
def copiedOctet (octet : Content) : Content := octet.filter (· ≠ 0)

/-- `clone`, which goes `fuel` deep: the new object and the memory with it. -/
def clone (allocator : Allocator) : Nat → Memory → Address → Option (Address × Memory)
  | 0, _, _ => none
  | fuel + 1, m, a =>
    match cell m a with
    | none => none
    | some (.basic b) => some (create allocator m (.basic b))
    | some (.HLAopaqueData octets bufferSize) =>
      some (create allocator m (.HLAopaqueData (octets.map copiedOctet) bufferSize))
    | some (.HLAfixedArray prototype elements) => do
      let (prototype', m₁) ← clone allocator fuel m prototype
      let (elements', m₂) ← cloneAll (clone allocator fuel) m₁ elements
      return create allocator m₂ (.HLAfixedArray prototype' elements')
    | some (.HLAvariableArray prototype elements) => do
      let (prototype', m₁) ← clone allocator fuel m prototype
      let (elements', m₂) ← cloneAll (clone allocator fuel) m₁ elements
      return create allocator m₂ (.HLAvariableArray prototype' elements')
    | some (.HLAfixedRecord elements) => do
      let (elements', m₁) ← cloneAll (clone allocator fuel) m elements
      return create allocator m₁ (.HLAfixedRecord elements')
    -- `_vectorpDataElement[it->first]`: the keys are those of the original
    | some (.HLAvariantRecord discriminant entries) => do
      let (discriminant', m₁) ← clone allocator fuel m discriminant
      let (variants, m₂) ← cloneAll (clone allocator fuel) m₁ (entries.map Prod.snd)
      return create allocator m₂
        (.HLAvariantRecord discriminant' ((entries.map Prod.fst).zip variants))

/-! ## What memory holds -/

/-- How much of an element is looked at: its type, what its getters return, or all of it. -/
inductive View where
  | outline | shown | stored
  deriving DecidableEq

/-- The getters of an array do not return the prototype. -/
def View.ofPrototype : View → View
  | stored => stored
  | _ => outline

def View.Octets : View → List Content → List Content → Prop
  | outline, held, octets => held.length = octets.length
  -- an octet that was never written is an arbitrary one
  | shown, held, octets => held = octets ∧ none ∉ held
  | stored, held, octets => held = octets

mutual

/-- The object at `a` is the element, as far as the view goes. -/
def Holds (m : Memory) : View → Address → Element → Prop
  | _, a, .basic b => cell m a = some (.basic b)
  | view, a, .HLAopaqueData octets bufferSize =>
    ∃ held, cell m a = some (.HLAopaqueData held bufferSize) ∧ view.Octets held octets
  | view, a, .HLAfixedArray prototype elements =>
    ∃ q bs, cell m a = some (.HLAfixedArray q bs) ∧ Holds m view.ofPrototype q prototype ∧
      HoldsAll m view bs elements
  | view, a, .HLAvariableArray prototype elements =>
    ∃ q bs, cell m a = some (.HLAvariableArray q bs) ∧ Holds m view.ofPrototype q prototype ∧
      HoldsAll m view bs elements
  | view, a, .HLAfixedRecord elements =>
    ∃ bs, cell m a = some (.HLAfixedRecord bs) ∧ HoldsAll m view bs elements
  | view, a, .HLAvariantRecord discriminant entries =>
    ∃ d bs, cell m a = some (.HLAvariantRecord d bs) ∧ Holds m view d discriminant ∧
      HoldsEntries m view bs entries

def HoldsAll (m : Memory) : View → List Address → List Element → Prop
  | _, bs, [] => bs = []
  | view, bs, e :: rest => ∃ b others, bs = b :: others ∧ Holds m view b e ∧
      HoldsAll m view others rest

def HoldsEntries (m : Memory) : View → List (Address × Address) → List (Element × Element) → Prop
  | _, bs, [] => bs = []
  | view, bs, entry :: rest => ∃ b others, bs = b :: others ∧ HoldsEntry m view b entry ∧
      HoldsEntries m view others rest

/-- The keys are not part of the type. -/
def HoldsEntry (m : Memory) : View → Address × Address → Element × Element → Prop
  | view, b, (key, variant) =>
    (view ≠ .outline → Holds m view b.1 key) ∧ Holds m view b.2 variant

end

/-- An object and all that it leads to. -/
inductive Reach (m : Memory) (a : Address) : Address → Prop where
  | self : Reach m a a
  | part {b c : Address} {object : Shape Address} (before : Reach m a b)
      (there : cell m b = some object) (part : c ∈ object.parts) : Reach m a c

/-- What operations on the object at `a` can have made of memory: objects that it does not lead
to are as they were. -/
def Operated (m : Memory) (a : Address) (m' : Memory) : Prop :=
  ∀ b object, cell m b = some object → ¬Reach m a b → cell m' b = some object

/-- In `m'` the object at `a'` is a copy of the element that `m` held at `a`: its getters return
what those of the element returned, and its octets, its length, its boundary and its hash are
the same. -/
structure Copied (m : Memory) (a : Address) (e : Element) (m' : Memory) (a' : Address) :
    Prop where
  getters : Holds m' .shown a' e
  methods : ∀ fuel, sizeOf e ≤ fuel → methodsAt fuel m' a' = methodsAt fuel m a

/-- `clone` returns a copy, which remains one under operations on the original. -/
def Faithful (allocator : Allocator) (m : Memory) (a : Address) (e : Element) : Prop :=
  ∀ fuel, sizeOf e ≤ fuel → ∃ a' m', clone allocator fuel m a = some (a', m') ∧
    ∀ m'', Operated m' a m'' → Copied m a e m'' a'

namespace Element

mutual

/-- No octet that a getter returns is zero, and no variant record that a getter returns has
variants. -/
def Plain : Element → Prop
  | .basic _ => True
  | .HLAopaqueData octets _ => none ∉ octets ∧ some 0 ∉ octets
  | .HLAfixedArray _ elements | .HLAvariableArray _ elements | .HLAfixedRecord elements =>
    AllPlain elements
  | .HLAvariantRecord discriminant entries => entries = [] ∧ Plain discriminant

def AllPlain : List Element → Prop
  | [] => True
  | e :: rest => Plain e ∧ AllPlain rest

end

theorem allPlain_iff (elements : List Element) :
    AllPlain elements ↔ ∀ e ∈ elements, Plain e := by
  induction elements with
  | nil => simp [AllPlain]
  | cons e rest ih => simp [AllPlain, ih]

end Element

/-! ## Holding -/

theorem forall₂_of_mem {α β : Type} {R S : α → β → Prop} {l : List α} {l' : List β}
    (related : List.Forall₂ R l l') (step : ∀ b ∈ l', ∀ a, R a b → S a b) :
    List.Forall₂ S l l' := by
  induction related with
  | nil => exact .nil
  | cons first _ ih =>
    apply List.Forall₂.cons (step _ (by simp) _ first)
    exact ih fun b later => step b (by simp [later])

theorem related_of_mem {α β : Type} {R : α → β → Prop} {l : List α} {l' : List β} {a : α}
    (related : List.Forall₂ R l l') (inside : a ∈ l) : ∃ b ∈ l', R a b := by
  induction related with
  | nil => cases inside
  | cons first _ ih =>
    rcases List.mem_cons.mp inside with rfl | later
    · exact ⟨_, by simp, first⟩
    · obtain ⟨b, member, holds⟩ := ih later
      exact ⟨b, by simp [member], holds⟩

theorem holdsAll_iff {m : Memory} {view : View} {bs : List Address} {elements : List Element} :
    HoldsAll m view bs elements ↔ List.Forall₂ (Holds m view) bs elements := by
  induction elements generalizing bs with
  | nil => simp [HoldsAll]
  | cons e rest ih =>
    simp only [HoldsAll, ih, List.forall₂_cons_right_iff]
    grind

theorem holdsEntries_iff {m : Memory} {view : View} {bs : List (Address × Address)}
    {entries : List (Element × Element)} :
    HoldsEntries m view bs entries ↔
      List.Forall₂ (fun b entry => (view ≠ .outline → Holds m view b.1 entry.1) ∧
        Holds m view b.2 entry.2) bs entries := by
  induction entries generalizing bs with
  | nil => simp [HoldsEntries]
  | cons entry rest ih =>
    obtain ⟨key, variant⟩ := entry
    simp only [HoldsEntries, HoldsEntry, ih, List.forall₂_cons_right_iff]
    grind

/-- An element is held by a cell. -/
theorem Holds.cell_isSome {m : Memory} {view : View} {a : Address} {e : Element}
    (holds : Holds m view a e) : (cell m a).isSome = true := by
  cases e <;> simp only [Holds] at holds <;> grind

/-- Objects that are there stay there. -/
def Extends (m m' : Memory) : Prop :=
  ∀ b object, cell m b = some object → cell m' b = some object

theorem Extends.refl (m : Memory) : Extends m m := fun _ _ there => there

theorem Extends.trans {m m' m'' : Memory} (first : Extends m m') (second : Extends m' m'') :
    Extends m m'' := fun b object there => second b object (first b object there)

theorem extends_create (allocator : Allocator) (m : Memory) (object : Shape Address) :
    Extends m (create allocator m object).2 := by
  intro b held there
  have old : b ≠ place allocator m := by
    rintro rfl
    rw [cell_place] at there
    cases there
  simpa [create, cell_allocate, old] using there

theorem cell_create (allocator : Allocator) (m : Memory) (object : Shape Address) :
    cell (create allocator m object).2 (create allocator m object).1 = some object := by
  simp [create, cell_allocate]

/-- Copying leaves the elements that memory holds. -/
theorem Holds.extends {m m' : Memory} (longer : Extends m m') {e : Element} :
    ∀ {view a}, Holds m view a e → Holds m' view a e := by
  induction e using Element.parts_induction with
  | basic b =>
    intro view a holds
    simp only [Holds] at holds ⊢
    exact longer _ _ holds
  | opaqueData octets size =>
    intro view a holds
    simp only [Holds] at holds ⊢
    obtain ⟨held, there, same⟩ := holds
    exact ⟨held, longer _ _ there, same⟩
  | fixedArray prototype elements first each =>
    intro view a holds
    simp only [Holds, holdsAll_iff] at holds ⊢
    obtain ⟨q, bs, there, typed, held⟩ := holds
    exact ⟨q, bs, longer _ _ there, first typed, forall₂_of_mem held fun e inside _ => each e inside⟩
  | variableArray prototype elements first each =>
    intro view a holds
    simp only [Holds, holdsAll_iff] at holds ⊢
    obtain ⟨q, bs, there, typed, held⟩ := holds
    exact ⟨q, bs, longer _ _ there, first typed, forall₂_of_mem held fun e inside _ => each e inside⟩
  | fixedRecord elements each =>
    intro view a holds
    simp only [Holds, holdsAll_iff] at holds ⊢
    obtain ⟨bs, there, held⟩ := holds
    exact ⟨bs, longer _ _ there, forall₂_of_mem held fun e inside _ => each e inside⟩
  | variantRecord discriminant entries first each =>
    intro view a holds
    simp only [Holds, holdsEntries_iff] at holds ⊢
    obtain ⟨d, bs, there, chosen, held⟩ := holds
    refine ⟨d, bs, longer _ _ there, first chosen, forall₂_of_mem held fun entry inside b holds => ?_⟩
    exact ⟨fun looked => (each entry inside).1 (holds.1 looked), (each entry inside).2 holds.2⟩

/-- The parts of a stored element are stored. -/
theorem Holds.part {m : Memory} {a b : Address} {e : Element} {object : Shape Address}
    (holds : Holds m .stored a e) (there : cell m a = some object) (part : b ∈ object.parts) :
    ∃ e', Holds m .stored b e' := by
  cases e with
  | basic x =>
    simp only [Holds, there, Option.some.injEq] at holds
    subst holds
    cases part
  | HLAopaqueData octets size =>
    simp only [Holds, there, Option.some.injEq] at holds
    obtain ⟨held, rfl, -⟩ := holds
    cases part
  | HLAfixedArray prototype elements | HLAvariableArray prototype elements =>
    simp only [Holds, there, Option.some.injEq, holdsAll_iff] at holds
    obtain ⟨q, bs, rfl, typed, held⟩ := holds
    rcases List.mem_cons.mp part with rfl | inside
    · exact ⟨_, typed⟩
    · obtain ⟨e', -, holds⟩ := related_of_mem held inside
      exact ⟨e', holds⟩
  | HLAfixedRecord elements =>
    simp only [Holds, there, Option.some.injEq, holdsAll_iff] at holds
    obtain ⟨bs, rfl, held⟩ := holds
    obtain ⟨e', -, holds⟩ := related_of_mem held part
    exact ⟨e', holds⟩
  | HLAvariantRecord discriminant entries =>
    simp only [Holds, there, Option.some.injEq, holdsEntries_iff] at holds
    obtain ⟨d, bs, rfl, chosen, held⟩ := holds
    rcases List.mem_cons.mp part with rfl | inside
    · exact ⟨_, chosen⟩
    · obtain ⟨entry, member, either⟩ := List.mem_flatMap.mp inside
      obtain ⟨pair, -, key, variant⟩ := related_of_mem held member
      simp only [List.mem_cons, List.not_mem_nil, or_false] at either
      rcases either with rfl | rfl
      · exact ⟨_, key (by simp)⟩
      · exact ⟨_, variant⟩

theorem Holds.reached {m : Memory} {a b : Address} {e : Element} (holds : Holds m .stored a e)
    (reach : Reach m a b) : ∃ e', Holds m .stored b e' := by
  induction reach with
  | self => exact ⟨e, holds⟩
  | part _ there part ih =>
    obtain ⟨e', before⟩ := ih
    exact before.part there part

/-- What is allocated later is not reached. -/
theorem Reach.of_extends {m m' : Memory} {a b : Address} {e : Element} (longer : Extends m m')
    (holds : Holds m .stored a e) (reach : Reach m' a b) : Reach m a b := by
  induction reach with
  | self => exact .self
  | part _ there part ih =>
    obtain ⟨e', held⟩ := holds.reached ih
    obtain ⟨object, before⟩ := Option.isSome_iff_exists.mp held.cell_isSome
    have same := there.symm.trans (longer _ _ before)
    cases same
    exact ih.part before part

theorem Reach.extends {m m' : Memory} {a b : Address} (longer : Extends m m')
    (reach : Reach m a b) : Reach m' a b := by
  induction reach with
  | self => exact .self
  | part _ there part ih => exact ih.part (longer _ _ there) part

theorem Reach.trans {m : Memory} {a b c : Address} (first : Reach m a b) (second : Reach m b c) :
    Reach m a c := by
  induction second with
  | self => exact first
  | part _ there part ih => exact ih.part there part

/-! ## The methods of what memory holds -/

theorem largestBoundary_congr {l l' : List Methods}
    (same : List.Forall₂ (fun x y => x.getOctetBoundary = y.getOctetBoundary) l l') :
    largestBoundary l = largestBoundary l' := by
  induction same with
  | nil => rfl
  | cons first _ ih => rw [largestBoundary, largestBoundary, first, ih]

theorem map_eq_of_forall₂ {α β γ : Type} {f : α → γ} {g : β → γ} {l : List α} {l' : List β}
    (same : List.Forall₂ (fun x y => f x = g y) l l') : l.map f = l'.map g := by
  induction same with
  | nil => rfl
  | cons first _ ih => rw [List.map_cons, List.map_cons, first, ih]

theorem sizeOf_entry {entry : Element × Element} {entries : List (Element × Element)}
    (inside : entry ∈ entries) :
    sizeOf entry.1 < sizeOf entries ∧ sizeOf entry.2 < sizeOf entries := by
  obtain ⟨key, variant⟩ := entry
  have smaller := List.sizeOf_lt_of_mem inside
  simp only [Prod.mk.sizeOf_spec] at smaller
  constructor <;> dsimp only <;> omega

/-- The prototype of an array is asked for its boundary only. -/
theorem methods_variableArray {q prototype : Methods} {elements : List Methods}
    (same : q.getOctetBoundary = prototype.getOctetBoundary) :
    Shape.methods (.HLAvariableArray q elements) =
      Shape.methods (.HLAvariableArray prototype elements) := by
  simp only [Shape.methods, Shape.encodeInto, HLAvariableArray.encodeInto, same]
  rfl

/-- The methods of an object of a type have the boundary of the type; those of a shown element are
the methods of the element. -/
theorem Holds.methods {m : Memory} {e : Element} :
    ∀ {view a}, Holds m view a e → ∀ fuel, sizeOf e ≤ fuel →
      (methodsAt fuel m a).getOctetBoundary = e.methods.getOctetBoundary ∧
      (view ≠ .outline → methodsAt fuel m a = e.methods) := by
  induction e using Element.parts_induction with
  | basic b =>
    intro view a holds fuel enough
    obtain ⟨fuel, rfl⟩ : ∃ n, fuel = n + 1 := ⟨fuel - 1, by simp at enough; omega⟩
    simp only [Holds] at holds
    simp [methodsAt, holds, Shape.map, Element.methods]
  | opaqueData octets size =>
    intro view a holds fuel enough
    obtain ⟨fuel, rfl⟩ : ∃ n, fuel = n + 1 := ⟨fuel - 1, by simp at enough; omega⟩
    simp only [Holds] at holds
    obtain ⟨held, there, same⟩ := holds
    refine ⟨by simp [methodsAt, there, Shape.map, Element.methods, Shape.methods,
      Shape.getOctetBoundary], fun looked => ?_⟩
    have equal : held = octets := by
      cases view with
      | outline => exact absurd rfl looked
      | shown => exact same.1
      | stored => exact same
    simp [methodsAt, there, Shape.map, Element.methods, equal]
  | fixedArray prototype elements first each =>
    intro view a holds fuel enough
    obtain ⟨fuel, rfl⟩ : ∃ n, fuel = n + 1 := ⟨fuel - 1, by simp at enough; omega⟩
    simp only [Element.HLAfixedArray.sizeOf_spec] at enough
    simp only [Holds, holdsAll_iff] at holds
    obtain ⟨q, bs, there, -, held⟩ := holds
    have parts := forall₂_of_mem held fun e inside b (holds : Holds m view b e) =>
      each e inside holds fuel (by have := List.sizeOf_lt_of_mem inside; omega)
    simp only [methodsAt, there, Shape.map, Element.methods, Element.allMethods_eq]
    constructor
    · exact largestBoundary_congr (by simpa using parts.imp fun _ _ same => same.1)
    · intro looked
      rw [map_eq_of_forall₂ (parts.imp fun _ _ same => same.2 looked)]
      rfl
  | variableArray prototype elements first each =>
    intro view a holds fuel enough
    obtain ⟨fuel, rfl⟩ : ∃ n, fuel = n + 1 := ⟨fuel - 1, by simp at enough; omega⟩
    simp only [Element.HLAvariableArray.sizeOf_spec] at enough
    simp only [Holds, holdsAll_iff] at holds
    obtain ⟨q, bs, there, typed, held⟩ := holds
    have parts := forall₂_of_mem held fun e inside b (holds : Holds m view b e) =>
      each e inside holds fuel (by have := List.sizeOf_lt_of_mem inside; omega)
    simp only [methodsAt, there, Shape.map, Element.methods, Element.allMethods_eq]
    constructor
    · exact largestBoundary_congr (by simpa using parts.imp fun _ _ same => same.1)
    · intro looked
      rw [map_eq_of_forall₂ (parts.imp fun _ _ same => same.2 looked)]
      exact methods_variableArray (first typed fuel (by omega)).1
  | fixedRecord elements each =>
    intro view a holds fuel enough
    obtain ⟨fuel, rfl⟩ : ∃ n, fuel = n + 1 := ⟨fuel - 1, by simp at enough; omega⟩
    simp only [Element.HLAfixedRecord.sizeOf_spec] at enough
    simp only [Holds, holdsAll_iff] at holds
    obtain ⟨bs, there, held⟩ := holds
    have parts := forall₂_of_mem held fun e inside b (holds : Holds m view b e) =>
      each e inside holds fuel (by have := List.sizeOf_lt_of_mem inside; omega)
    simp only [methodsAt, there, Shape.map, Element.methods, Element.allMethods_eq]
    constructor
    · exact largestBoundary_congr (by simpa using parts.imp fun _ _ same => same.1)
    · intro looked
      rw [map_eq_of_forall₂ (parts.imp fun _ _ same => same.2 looked)]
  | variantRecord discriminant entries first each =>
    intro view a holds fuel enough
    obtain ⟨fuel, rfl⟩ : ∃ n, fuel = n + 1 := ⟨fuel - 1, by simp at enough; omega⟩
    simp only [Element.HLAvariantRecord.sizeOf_spec] at enough
    simp only [Holds, holdsEntries_iff] at holds
    obtain ⟨d, bs, there, chosen, held⟩ := holds
    have variants := forall₂_of_mem held fun entry inside b holds =>
      (each entry inside).2 holds.2 fuel
        (by have := (sizeOf_entry inside).2; omega)
    simp only [methodsAt, there, Shape.map, Element.methods, Element.entryMethods_eq]
    constructor
    · apply largestBoundary_congr
      simpa using variants.imp fun _ _ same => same.1
    · intro looked
      have pairs : bs.map (Prod.map (methodsAt fuel m) (methodsAt fuel m)) =
          entries.map (Prod.map Element.methods Element.methods) := by
        apply map_eq_of_forall₂
        apply forall₂_of_mem held
        intro entry inside b holds
        have key := (each entry inside).1 (holds.1 looked) fuel
          (by have := (sizeOf_entry inside).1; omega)
        have variant := (each entry inside).2 holds.2 fuel
          (by have := (sizeOf_entry inside).2; omega)
        rw [Prod.map, Prod.map, key.2 looked, variant.2 looked]
      rw [pairs, (first chosen fuel (by omega)).2 looked]

/-! ## What a copy is -/

/-- What `m'` has more than `m` is in `m''` as well. -/
def Kept (m m' m'' : Memory) : Prop :=
  ∀ b object, cell m b = none → cell m' b = some object → cell m'' b = some object

theorem Kept.left {m m₁ m₂ m'' : Memory} (longer : Extends m₁ m₂) (kept : Kept m m₂ m'') :
    Kept m m₁ m'' := fun b object free there => kept b object free (longer b object there)

theorem Kept.right {m m₁ m₂ m'' : Memory} (longer : Extends m m₁) (kept : Kept m m₂ m'') :
    Kept m₁ m₂ m'' := by
  intro b object free there
  apply kept b object _ there
  cases before : cell m b with
  | none => rfl
  | some held => rw [longer b held before] at free; cases free

theorem Kept.created {allocator : Allocator} {m m' m'' : Memory} {object : Shape Address}
    (longer : Extends m m') (kept : Kept m (create allocator m' object).2 m'') :
    cell m'' (create allocator m' object).1 = some object := by
  apply kept.right longer _ _ _ (cell_create allocator m' object)
  exact cell_place allocator m'

/-- All that the object at `a` leads to is gone. -/
def Deleted (m : Memory) (a : Address) (m'' : Memory) : Prop :=
  ∀ b, Reach m a b → cell m'' b = none

theorem Deleted.part {m m₁ m'' : Memory} {a b : Address} {e : Element} {object : Shape Address}
    (deleted : Deleted m a m'') (there : cell m a = some object) (part : b ∈ object.parts)
    (longer : Extends m m₁) (holds : Holds m .stored b e) : Deleted m₁ b m'' :=
  fun c reach => deleted c ((Reach.self.part there part).trans (reach.of_extends longer holds))

/-- What `clone` has made of the element at `a`. -/
structure Cloned (m : Memory) (a : Address) (e : Element) (m' : Memory) (a' : Address) :
    Prop where
  longer : Extends m m'
  outline : ∀ m'', Kept m m' m'' → Holds m'' .outline a' e
  shown : e.Plain → ∀ m'', Kept m m' m'' → Holds m'' .shown a' e
  spoilt : ¬e.Plain → ∀ m'', Kept m m' m'' → Deleted m a m'' → ¬Holds m'' .shown a' e

structure ClonedAll (m : Memory) (bs : List Address) (elements : List Element) (m' : Memory)
    (bs' : List Address) : Prop where
  longer : Extends m m'
  outline : ∀ m'', Kept m m' m'' → List.Forall₂ (Holds m'' .outline) bs' elements
  shown : (∀ e ∈ elements, e.Plain) → ∀ m'', Kept m m' m'' →
    List.Forall₂ (Holds m'' .shown) bs' elements
  spoilt : ¬(∀ e ∈ elements, e.Plain) → ∀ m'', Kept m m' m'' →
    (∀ b ∈ bs, Deleted m b m'') → ¬List.Forall₂ (Holds m'' .shown) bs' elements

/-- Each element is cloned in a memory that the clones before it have extended. -/
theorem cloneAll_cloned (copy : Memory → Address → Option (Address × Memory))
    (elements : List Element)
    (each : ∀ e ∈ elements, ∀ m a, Holds m .stored a e →
      ∃ a' m', copy m a = some (a', m') ∧ Cloned m a e m' a') :
    ∀ m bs, List.Forall₂ (Holds m .stored) bs elements →
      ∃ bs' m', cloneAll copy m bs = some (bs', m') ∧ ClonedAll m bs elements m' bs' := by
  induction elements with
  | nil =>
    intro m bs held
    cases held
    refine ⟨[], m, rfl, Extends.refl m, fun _ _ => .nil, fun _ _ _ => .nil, ?_⟩
    intro not
    simp at not
  | cons e rest ih =>
    intro m bs held
    cases held with
    | cons holds later =>
      rename_i b bs
      obtain ⟨b', m₁, copied, first⟩ := each e (by simp) m b holds
      have stored := later.imp fun _ _ holds => Holds.extends first.longer holds
      obtain ⟨bs', m₂, all, others⟩ := ih (fun e inside => each e (by simp [inside])) m₁ bs stored
      refine ⟨b' :: bs', m₂, by simp [cloneAll, copied, all], first.longer.trans others.longer,
        ?_, ?_, ?_⟩
      · intro m'' kept
        exact .cons (first.outline m'' (kept.left others.longer))
          (others.outline m'' (kept.right first.longer))
      · intro plain m'' kept
        apply List.Forall₂.cons (first.shown (plain e (by simp)) m'' (kept.left others.longer))
        exact others.shown (fun e inside => plain e (by simp [inside])) m''
          (kept.right first.longer)
      · intro spoilt m'' kept deleted shown
        cases shown with
        | cons now then_ =>
          by_cases plain : e.Plain
          · apply others.spoilt _ m'' (kept.right first.longer) _ then_
            · intro each
              apply spoilt
              simpa [plain] using each
            · intro c inside d reach
              obtain ⟨e', -, held⟩ := related_of_mem later inside
              exact deleted c (by simp [inside]) d (reach.of_extends first.longer held)
          · exact first.spoilt plain m'' (kept.left others.longer) (deleted b (by simp)) now

/-- The copy constructor of an array, whose objects are made by `f`. -/
theorem array_cloned {allocator : Allocator} {f : Address → List Address → Shape Address}
    (injective : ∀ q bs q' bs', f q bs = f q' bs' → bs = bs')
    (parts : ∀ q bs, (f q bs).parts = q :: bs) {e prototype : Element} {elements : List Element}
    (holds_iff : ∀ m view a, Holds m view a e ↔ ∃ q bs, cell m a = some (f q bs) ∧
      Holds m view.ofPrototype q prototype ∧ List.Forall₂ (Holds m view) bs elements)
    (plain_iff : e.Plain ↔ ∀ x ∈ elements, x.Plain) {m m₁ m₂ : Memory} {a q q' : Address}
    {bs bs' : List Address} (there : cell m a = some (f q bs))
    (held : List.Forall₂ (Holds m .stored) bs elements) (first : Cloned m q prototype m₁ q')
    (all : ClonedAll m₁ bs elements m₂ bs') :
    Cloned m a e (create allocator m₂ (f q' bs')).2 (create allocator m₂ (f q' bs')).1 := by
  have longer := first.longer.trans all.longer
  have last := extends_create allocator m₂ (f q' bs')
  have now {m'' : Memory} (kept : Kept m (create allocator m₂ (f q' bs')).2 m'') :
      Holds m'' .outline q' prototype ∧ Kept m₁ m₂ m'' :=
    ⟨first.outline m'' (kept.left (all.longer.trans last)),
      (kept.left last).right first.longer⟩
  refine ⟨longer.trans last, ?_, ?_, ?_⟩
  · intro m'' kept
    rw [holds_iff]
    exact ⟨q', bs', kept.created longer, (now kept).1, all.outline m'' (now kept).2⟩
  · intro plain m'' kept
    rw [holds_iff]
    exact ⟨q', bs', kept.created longer, (now kept).1,
      all.shown (plain_iff.mp plain) m'' (now kept).2⟩
  · intro spoilt m'' kept deleted shown
    obtain ⟨q'', bs'', there'', -, shown⟩ := (holds_iff _ _ _).mp shown
    rw [kept.created longer, Option.some.injEq] at there''
    obtain rfl := injective _ _ _ _ there''
    refine all.spoilt (fun plain => spoilt (plain_iff.mpr plain)) m'' (now kept).2 ?_ shown
    intro b inside
    obtain ⟨e', -, holds⟩ := related_of_mem held inside
    exact deleted.part there (by simp [parts, inside]) first.longer holds

theorem forall₂_zip_left {α β γ : Type} {R : β → γ → Prop} {l : List α} {bs : List β}
    {entries : List γ} (count : l.length = entries.length) (related : List.Forall₂ R bs entries) :
    List.Forall₂ (fun b entry => R b.2 entry) (l.zip bs) entries := by
  induction related generalizing l with
  | nil => simp
  | cons first _ ih =>
    cases l with
    | nil => simp at count
    | cons x rest => exact .cons first (ih (by simpa using count))

theorem map_copiedOctet {octets : List Content} :
    octets.map copiedOctet = octets ↔ some 0 ∉ octets := by
  have one (octet : Content) : copiedOctet octet = octet ↔ some 0 ≠ octet := by
    cases octet with
    | none => simp [copiedOctet]
    | some v => simp [copiedOctet, Option.filter, eq_comm (a := v)]
  induction octets with
  | nil => simp
  | cons octet rest ih => simp [ih, one]

/-- `clone` returns when it may go deep enough, and what it has made. -/
theorem clone_cloned (allocator : Allocator) {e : Element} :
    ∀ {m a}, Holds m .stored a e → ∀ fuel, sizeOf e ≤ fuel →
      ∃ a' m', clone allocator fuel m a = some (a', m') ∧ Cloned m a e m' a' := by
  induction e using Element.parts_induction with
  | basic b =>
    intro m a holds fuel enough
    obtain ⟨fuel, rfl⟩ : ∃ n, fuel = n + 1 := ⟨fuel - 1, by simp at enough; omega⟩
    simp only [Holds] at holds
    refine ⟨(create allocator m (.basic b)).1, (create allocator m (.basic b)).2,
      by simp [clone, holds], extends_create allocator m _, ?_, ?_, ?_⟩
    · intro m'' kept
      simpa only [Holds] using kept.created (Extends.refl m)
    · intro _ m'' kept
      simpa only [Holds] using kept.created (Extends.refl m)
    · intro spoilt
      simp [Element.Plain] at spoilt
  | opaqueData octets size =>
    intro m a holds fuel enough
    obtain ⟨fuel, rfl⟩ : ∃ n, fuel = n + 1 := ⟨fuel - 1, by simp at enough; omega⟩
    simp only [Holds] at holds
    obtain ⟨held, there, rfl⟩ := holds
    let object : Shape Address := .HLAopaqueData (held.map copiedOctet) size
    refine ⟨(create allocator m object).1, (create allocator m object).2,
      by simp [clone, there, object], extends_create allocator m _, ?_, ?_, ?_⟩
    · intro m'' kept
      simp only [Holds]
      exact ⟨_, kept.created (Extends.refl m), by simp [View.Octets]⟩
    · intro plain m'' kept
      simp only [Element.Plain] at plain
      have same := map_copiedOctet.mpr plain.2
      simp only [Holds]
      exact ⟨_, kept.created (Extends.refl m), same, by rw [same]; exact plain.1⟩
    · intro spoilt m'' kept _ shown
      simp only [Holds] at shown
      obtain ⟨octets, there'', same, written⟩ := shown
      rw [kept.created (Extends.refl m), Option.some.injEq, Shape.HLAopaqueData.injEq] at there''
      obtain ⟨rfl, -⟩ := there''
      apply spoilt
      simp only [Element.Plain]
      exact ⟨same ▸ written, map_copiedOctet.mp same⟩
  | fixedArray prototype elements first each =>
    intro m a holds fuel enough
    obtain ⟨fuel, rfl⟩ : ∃ n, fuel = n + 1 := ⟨fuel - 1, by simp at enough; omega⟩
    simp only [Element.HLAfixedArray.sizeOf_spec] at enough
    simp only [Holds, holdsAll_iff] at holds
    obtain ⟨q, bs, there, typed, held⟩ := holds
    obtain ⟨q', m₁, copied, one⟩ := first typed fuel (by omega)
    obtain ⟨bs', m₂, copies, all⟩ := cloneAll_cloned (clone allocator fuel) elements
      (fun e inside m a holds => each e inside holds fuel
        (by have := List.sizeOf_lt_of_mem inside; omega)) m₁ bs
      (held.imp fun _ _ holds => Holds.extends one.longer holds)
    let object : Shape Address := .HLAfixedArray q' bs'
    refine ⟨(create allocator m₂ object).1, (create allocator m₂ object).2,
      by simp [clone, there, copied, copies, object], ?_⟩
    exact array_cloned (f := .HLAfixedArray) (by simp) (by simp [Shape.parts])
      (by simp [Holds, holdsAll_iff]) (by simp [Element.Plain, Element.allPlain_iff])
      there held one all
  | variableArray prototype elements first each =>
    intro m a holds fuel enough
    obtain ⟨fuel, rfl⟩ : ∃ n, fuel = n + 1 := ⟨fuel - 1, by simp at enough; omega⟩
    simp only [Element.HLAvariableArray.sizeOf_spec] at enough
    simp only [Holds, holdsAll_iff] at holds
    obtain ⟨q, bs, there, typed, held⟩ := holds
    obtain ⟨q', m₁, copied, one⟩ := first typed fuel (by omega)
    obtain ⟨bs', m₂, copies, all⟩ := cloneAll_cloned (clone allocator fuel) elements
      (fun e inside m a holds => each e inside holds fuel
        (by have := List.sizeOf_lt_of_mem inside; omega)) m₁ bs
      (held.imp fun _ _ holds => Holds.extends one.longer holds)
    let object : Shape Address := .HLAvariableArray q' bs'
    refine ⟨(create allocator m₂ object).1, (create allocator m₂ object).2,
      by simp [clone, there, copied, copies, object], ?_⟩
    exact array_cloned (f := .HLAvariableArray) (by simp) (by simp [Shape.parts])
      (by simp [Holds, holdsAll_iff]) (by simp [Element.Plain, Element.allPlain_iff])
      there held one all
  | fixedRecord elements each =>
    intro m a holds fuel enough
    obtain ⟨fuel, rfl⟩ : ∃ n, fuel = n + 1 := ⟨fuel - 1, by simp at enough; omega⟩
    simp only [Element.HLAfixedRecord.sizeOf_spec] at enough
    simp only [Holds, holdsAll_iff] at holds
    obtain ⟨bs, there, held⟩ := holds
    obtain ⟨bs', m₁, copies, all⟩ := cloneAll_cloned (clone allocator fuel) elements
      (fun e inside m a holds => each e inside holds fuel
        (by have := List.sizeOf_lt_of_mem inside; omega)) m bs held
    let object : Shape Address := .HLAfixedRecord bs'
    have last := extends_create allocator m₁ object
    refine ⟨(create allocator m₁ object).1, (create allocator m₁ object).2,
      by simp [clone, there, copies, object], all.longer.trans last, ?_, ?_, ?_⟩
    · intro m'' kept
      simp only [Holds, holdsAll_iff]
      exact ⟨bs', kept.created all.longer, all.outline m'' (kept.left last)⟩
    · intro plain m'' kept
      simp only [Element.Plain, Element.allPlain_iff] at plain
      simp only [Holds, holdsAll_iff]
      exact ⟨bs', kept.created all.longer, all.shown plain m'' (kept.left last)⟩
    · intro spoilt m'' kept deleted shown
      simp only [Element.Plain, Element.allPlain_iff] at spoilt
      simp only [Holds, holdsAll_iff] at shown
      obtain ⟨bs'', there'', shown⟩ := shown
      rw [kept.created all.longer, Option.some.injEq, Shape.HLAfixedRecord.injEq] at there''
      subst there''
      refine all.spoilt spoilt m'' (kept.left last) ?_ shown
      intro b inside
      obtain ⟨e', -, holds⟩ := related_of_mem held inside
      exact deleted.part there (by simpa [Shape.parts] using inside) (Extends.refl m) holds
  | variantRecord discriminant entries first each =>
    intro m a holds fuel enough
    obtain ⟨fuel, rfl⟩ : ∃ n, fuel = n + 1 := ⟨fuel - 1, by simp at enough; omega⟩
    simp only [Element.HLAvariantRecord.sizeOf_spec] at enough
    simp only [Holds, holdsEntries_iff] at holds
    obtain ⟨d, bs, there, chosen, held⟩ := holds
    obtain ⟨d', m₁, copied, one⟩ := first chosen fuel (by omega)
    have variants : List.Forall₂ (Holds m₁ .stored) (bs.map Prod.snd) (entries.map Prod.snd) := by
      rw [List.forall₂_map_left_iff, List.forall₂_map_right_iff]
      exact held.imp fun _ _ holds => Holds.extends one.longer holds.2
    obtain ⟨bs', m₂, copies, all⟩ := cloneAll_cloned (clone allocator fuel)
      (entries.map Prod.snd) (fun e inside m a holds => by
        obtain ⟨entry, member, rfl⟩ := List.mem_map.mp inside
        have smaller := (sizeOf_entry member).2
        exact (each entry member).2 holds fuel (by omega)) m₁ (bs.map Prod.snd) variants
    let object : Shape Address := .HLAvariantRecord d' ((bs.map Prod.fst).zip bs')
    have last := extends_create allocator m₂ object
    have longer := one.longer.trans all.longer
    refine ⟨(create allocator m₂ object).1, (create allocator m₂ object).2,
      by simp [clone, there, copied, copies, object], longer.trans last, ?_, ?_, ?_⟩
    · intro m'' kept
      simp only [Holds, holdsEntries_iff]
      refine ⟨_, _, kept.created longer, one.outline m'' (kept.left (all.longer.trans last)), ?_⟩
      have outlines := all.outline m'' ((kept.left last).right one.longer)
      rw [List.forall₂_map_right_iff] at outlines
      have count : (bs.map Prod.fst).length = entries.length := by
        rw [List.length_map, held.length_eq]
      exact (forall₂_zip_left count outlines).imp fun _ _ holds => ⟨nofun, holds⟩
    · intro plain m'' kept
      simp only [Element.Plain] at plain
      obtain ⟨rfl, plain⟩ := plain
      cases held
      simp only [Holds, holdsEntries_iff]
      exact ⟨_, _, kept.created longer, one.shown plain m'' (kept.left (all.longer.trans last)),
        .nil⟩
    · intro spoilt m'' kept deleted shown
      simp only [Element.Plain] at spoilt
      simp only [Holds, holdsEntries_iff] at shown
      obtain ⟨d'', bs'', there'', choice, shown⟩ := shown
      rw [kept.created longer, Option.some.injEq, Shape.HLAvariantRecord.injEq] at there''
      obtain ⟨rfl, rfl⟩ := there''
      cases held with
      | nil =>
        have none : ¬discriminant.Plain := fun plain => spoilt ⟨rfl, plain⟩
        exact one.spoilt none m'' (kept.left (all.longer.trans last))
          (deleted.part there (by simp [Shape.parts]) (Extends.refl m) chosen) choice
      | @cons b entry bs entries holds _ =>
        -- the first key of the copy is that of the original
        have gone : cell m'' b.1 = none :=
          deleted b.1 (.part .self there (by simp [Shape.parts]))
        cases bs' with
        | nil => cases shown
        | cons v rest =>
          cases shown with
          | cons now _ =>
            have key := (now.1 nofun).cell_isSome
            rw [gone] at key
            cases key

/-- Operations on the original leave what the copy consists of. -/
theorem Operated.kept {m m' m'' : Memory} {a : Address} {e : Element}
    (operated : Operated m' a m'') (longer : Extends m m') (holds : Holds m .stored a e) :
    Kept m m' m'' := by
  intro b object free there
  apply operated b object there
  intro reach
  obtain ⟨e', held⟩ := holds.reached (reach.of_extends longer holds)
  have before := held.cell_isSome
  rw [free] at before
  cases before

open Classical in
/-- The memory after the original was destroyed with all that it leads to. -/
theorem exists_deleted {m m' : Memory} (a : Address) (longer : Extends m m') :
    ∃ m'', Operated m' a m'' ∧ Deleted m a m'' := by
  refine ⟨m'.filter fun c => decide ¬Reach m' a c.1, ?_, ?_⟩
  · intro b object there apart
    rw [cell_filter m' (fun b => decide ¬Reach m' a b), if_pos (by simpa using apart), there]
  · intro b reach
    have reached := reach.extends longer
    rw [cell_filter m' (fun b => decide ¬Reach m' a b), if_neg (by simpa using reached)]

/-- A copy is faithful if and only if no octet of opaque data that its getters lead to is zero,
and no variant record that they lead to has variants. -/
theorem clone_faithful_iff (allocator : Allocator) {m : Memory} {a : Address} {e : Element}
    (holds : Holds m .stored a e) : Faithful allocator m a e ↔ e.Plain := by
  constructor
  · intro faithful
    by_contra spoilt
    obtain ⟨a', m', copied, cloned⟩ := clone_cloned allocator holds _ (Nat.le_refl _)
    obtain ⟨m'', operated, deleted⟩ := exists_deleted a cloned.longer
    have kept := operated.kept cloned.longer holds
    obtain ⟨_, _, same, still⟩ := faithful (sizeOf e) (Nat.le_refl _)
    rw [copied] at same
    cases same
    exact cloned.spoilt spoilt m'' kept deleted (still m'' operated).getters
  · intro plain fuel enough
    obtain ⟨a', m', copied, cloned⟩ := clone_cloned allocator holds fuel enough
    refine ⟨a', m', copied, fun m'' operated => ?_⟩
    have getters := cloned.shown plain m'' (operated.kept cloned.longer holds)
    refine ⟨getters, fun fuel enough => ?_⟩
    rw [(getters.methods fuel enough).2 nofun, (holds.methods fuel enough).2 nofun]

theorem clone_faithful_record : Faithful upwards
    [(1, .HLAfixedRecord [2, 3]), (2, .basic (.HLAoctet 0)), (3, .HLAopaqueData [some 7] 1)] 1
    (.HLAfixedRecord [.basic (.HLAoctet 0), .HLAopaqueData [some 7] 1]) := by
  rw [clone_faithful_iff]
  · simp [Element.Plain, Element.AllPlain]
  · simp only [Holds, HoldsAll]
    exact ⟨[2, 3], rfl, 2, [3], rfl, rfl, 3, [], rfl, ⟨_, rfl, rfl⟩, rfl⟩

/-- The record of the discriminant 1 with the variant 5. -/
def chosenRecord : Memory :=
  [(1, .HLAvariantRecord 2 [(2, 3)]), (2, .basic (.HLAoctet 1)), (3, .basic (.HLAoctet 5))]

/-- The copy of opaque data whose octet is zero has an octet that was never written; the copy of a
variant record uses the key that was deleted with the record. -/
theorem copies_lost :
    (Holds [(1, .HLAopaqueData [some 0] 1)] .stored 1 (.HLAopaqueData [some 0] 1) ∧
      ¬Faithful upwards [(1, .HLAopaqueData [some 0] 1)] 1 (.HLAopaqueData [some 0] 1)) ∧
    ∃ a' m', clone upwards 3 chosenRecord 1 = some (a', m') ∧
      (methodsAt 3 chosenRecord 1).encodeInto = .ok [some 1, some 5] ∧
      (methodsAt 3 m' a').encodeInto = .ok [some 1, some 5] ∧
      (methodsAt 3 (delete (delete (delete m' 2) 3) 1) a').encodeInto = .error .dangling := by
  refine ⟨⟨?_, ?_⟩, ⟨_, _, rfl, by decide, by decide, by decide⟩⟩
  · simp only [Holds]
    exact ⟨_, rfl, rfl⟩
  · intro faithful
    have made (fuel : Nat) : clone upwards (fuel + 1) [(1, .HLAopaqueData [some 0] 1)] 1 =
        some (2, [(2, .HLAopaqueData [none] 1), (1, .HLAopaqueData [some 0] 1)]) := rfl
    obtain ⟨a', m', copied, still⟩ := faithful _ (Nat.le_succ _)
    rw [made] at copied
    cases copied
    have getters := (still _ fun _ _ there _ => there).getters
    simp only [Holds] at getters
    obtain ⟨octets, there, same, -⟩ := getters
    cases same
    cases there

end Certi.Encoding
