import Certi.LibRTI.DecodingTrips

/-!
# Decoding any octets

Buffers that nobody encoded: on each of them receivers of one type end alike, whatever
values they hold, and a receiver of fixed size shows where the buffer may end.
-/
namespace Certi.Encoding

open Bytes Reading Collect

namespace Datum

/-! ## Receivers that end alike -/

/-- Receivers of one type that differ in values, but not in their strings nor in how many elements
and octets there are. -/
inductive Twins : Datum → Datum → Prop where
  | basic {b b' : Basic} (same : b.SameClass b') (fixed : b'.sized) :
    Twins (.basic b) (.basic b')
  | string (b : Basic) : Twins (.basic b) (.basic b)
  | HLAopaqueData {octets octets' : List Content} (bufferSize : Nat)
    (length : octets.length = octets'.length) :
    Twins (.HLAopaqueData octets bufferSize) (.HLAopaqueData octets' bufferSize)
  | HLAfixedArray {p p' : Datum} {rs rs' : List Datum} (length : rs.length = rs'.length)
    (each : ∀ pair ∈ rs.zip rs', Twins pair.1 pair.2) :
    Twins (.HLAfixedArray p rs) (.HLAfixedArray p' rs')
  | HLAvariableArray {p p' : Datum} {rs rs' : List Datum} (prototypes : Twins p p')
    (length : rs.length = rs'.length) (each : ∀ pair ∈ rs.zip rs', Twins pair.1 pair.2) :
    Twins (.HLAvariableArray p rs) (.HLAvariableArray p' rs')
  | HLAfixedRecord {rs rs' : List Datum} (length : rs.length = rs'.length)
    (each : ∀ pair ∈ rs.zip rs', Twins pair.1 pair.2) :
    Twins (.HLAfixedRecord rs) (.HLAfixedRecord rs')

/-- As large and as aligned. -/
structure Level (r r' : Datum) : Prop where
  length : r.contents.encodedLength = r'.contents.encodedLength
  boundary : r.contents.octetBoundary = r'.contents.octetBoundary

theorem level_elements {rs rs' : List Datum} (length : rs.length = rs'.length)
    (each : ∀ pair ∈ rs.zip rs', Level pair.1 pair.2) :
    Contents.total (allContents rs) = Contents.total (allContents rs') ∧
      Contents.largest (allContents rs) = Contents.largest (allContents rs') :=
  ⟨total_congr length fun pair inside => (each pair inside).length,
    largest_congr length fun pair inside => (each pair inside).boundary⟩

theorem Twins.level {r r' : Datum} (twins : Twins r r') : Level r r' := by
  induction twins with
  | @basic b b' same fixed =>
    have length := Basic.getEncodedLength_congr same fixed
    exact ⟨length, length⟩
  | string => exact ⟨rfl, rfl⟩
  | HLAopaqueData bufferSize length => exact ⟨length, rfl⟩
  | HLAfixedArray length _ each | HLAvariableArray _ length _ _ each
  | HLAfixedRecord length _ each =>
    obtain ⟨total, largest⟩ := level_elements length each
    exact ⟨total, largest⟩

theorem Level.padding {rs rs' : List Datum} (length : rs.length = rs'.length)
    (each : ∀ pair ∈ rs.zip rs', Level pair.1 pair.2) :
    paddingOfFirst (rs.map methods) = paddingOfFirst (rs'.map methods) := by
  cases rs with
  | nil =>
    rw [List.length_eq_zero_iff.mp length.symm]
  | cons r rest =>
    obtain ⟨r', rest', rfl⟩ := List.exists_cons_of_length_eq_add_one length.symm
    have first := each (r, r') List.mem_cons_self
    rw [List.map_cons, List.map_cons, paddingOfFirst, paddingOfFirst, getEncodedLength_eq,
      getEncodedLength_eq, getOctetBoundary_eq, getOctetBoundary_eq, first.length, first.boundary]

/-- The values show the same. -/
def Same (d d' : Datum) : Prop := d.contents = d'.contents

def AllSame (ds ds' : List Datum) : Prop := ds.map contents = ds'.map contents

theorem allSame_of_forall₂ {ds ds' : List Datum} (each : List.Forall₂ Same ds ds') :
    AllSame ds ds' := by
  induction each with
  | nil => rfl
  | cons first _ ih => exact congrArg₂ List.cons first ih

section Elements

variable {rs rs' : List Datum} (length : rs.length = rs'.length)
  (each : ∀ pair ∈ rs.zip rs', Matches Same pair.1.decodeFrom pair.2.decodeFrom)

include length each

theorem elements_match (P : Nat) :
    Matches AllSame (separately P (rs.map decodeFrom)) (separately P (rs'.map decodeFrom)) := by
  have every : ∀ pair ∈ (rs.zip rs').map fun pair => (pair.1.decodeFrom, pair.2.decodeFrom),
      Matches Same pair.1 pair.2 := by
    intro pair inside
    obtain ⟨pair, there, rfl⟩ := List.mem_map.mp inside
    exact each pair there
  have both := separately_matches P every
  rw [List.map_map, List.map_map] at both
  have left := map_zip_left length decodeFrom
  have right := map_zip_right length decodeFrom
  rw [← left, ← right]
  exact both.mono fun _ _ => allSame_of_forall₂

theorem fields_match (levels : ∀ pair ∈ rs.zip rs', Level pair.1 pair.2) (a_offset : Nat) :
    Matches AllSame
      (HLAfixedRecord.decodeAfter (fun e : Datum => e.methods.getEncodedLength) a_offset
        (rs.map receiver))
      (HLAfixedRecord.decodeAfter (fun e : Datum => e.methods.getEncodedLength) a_offset
        (rs'.map receiver)) := by
  induction rs generalizing rs' a_offset with
  | nil =>
    rw [List.length_eq_zero_iff.mp length.symm]
    exact matches_pure rfl
  | cons r rest ih =>
    obtain ⟨r', rest', rfl⟩ := List.exists_cons_of_length_eq_add_one length.symm
    have head := each (r, r') List.mem_cons_self
    cases rest with
    | nil =>
      rw [List.length_eq_zero_iff.mp (Nat.succ.inj length).symm]
      exact head.bind fun d d' same => matches_pure (congrArg (fun c => [c]) same)
    | cons field rest =>
      obtain ⟨field', rest', rfl⟩ :=
        List.exists_cons_of_length_eq_add_one (Nat.succ.inj length).symm
      have boundary := (levels (field, field')
        (List.mem_cons_of_mem _ List.mem_cons_self)).boundary
      refine head.bind fun d d' same => ?_
      change Matches AllSame (ask d.methods.getEncodedLength >>= _)
        (ask d'.methods.getEncodedLength >>= _)
      rw [getEncodedLength_eq, getEncodedLength_eq, same]
      refine matches_after fun sizeElement => ?_
      change Matches AllSame (ask field.methods.getOctetBoundary >>= _)
        (ask field'.methods.getOctetBoundary >>= _)
      rw [getOctetBoundary_eq, getOctetBoundary_eq, boundary]
      refine matches_after fun V => ?_
      by_cases zero : V = 0
      · simp only [if_pos zero]
        exact matches_throw _
      · simp only [if_neg zero]
        refine matches_after fun _ => ?_
        refine (ih (Nat.succ.inj length)
          (fun pair inside => each pair (List.mem_cons_of_mem _ inside))
          (fun pair inside => levels pair (List.mem_cons_of_mem _ inside)) _).bind ?_
        intro ds ds' others
        exact matches_pure (congrArg₂ List.cons same others)

end Elements

theorem fixedArray_matches {p p' : Datum} {rs rs' : List Datum} (length : rs.length = rs'.length)
    (levels : ∀ pair ∈ rs.zip rs', Level pair.1 pair.2)
    (each : ∀ pair ∈ rs.zip rs', Matches Same pair.1.decodeFrom pair.2.decodeFrom) :
    Matches Same (HLAfixedArray p rs).decodeFrom (HLAfixedArray p' rs').decodeFrom := by
  have decoded : Matches AllSame (HLAfixedArray.decodeFrom (receivers rs))
      (HLAfixedArray.decodeFrom (receivers rs')) := by
    rw [receivers_eq, receivers_eq]
    cases rs with
    | nil =>
      rw [List.length_eq_zero_iff.mp length.symm]
      exact matches_throw _
    | cons r rest =>
      obtain ⟨r', rest', rfl⟩ := List.exists_cons_of_length_eq_add_one length.symm
      have paddings := Level.padding length levels
      have some : (r :: rest).map receiver ≠ [] := List.cons_ne_nil _ _
      have some' : (r' :: rest').map receiver ≠ [] := List.cons_ne_nil _ _
      rw [HLAfixedArray.decodeFrom, HLAfixedArray.decodeFrom, if_neg some, if_neg some',
        List.map_map, List.map_map, List.map_map, List.map_map]
      change Matches AllSame (ask (paddingOfFirst ((r :: rest).map methods)) >>= _)
        (ask (paddingOfFirst ((r' :: rest').map methods)) >>= _)
      rw [paddings]
      exact matches_after (elements_match length each)
  exact decoded.bind fun ds ds' same => matches_pure (by
    change Contents.HLAarray (allContents ds) = Contents.HLAarray (allContents ds')
    rw [allContents_eq, allContents_eq, same])

theorem variableArray_matches {p p' : Datum} {rs rs' : List Datum} (level : Level p p')
    (prototypes : Matches Same p.decodeFrom p'.decodeFrom) (length : rs.length = rs'.length)
    (levels : ∀ pair ∈ rs.zip rs', Level pair.1 pair.2)
    (each : ∀ pair ∈ rs.zip rs', Matches Same pair.1.decodeFrom pair.2.decodeFrom) :
    Matches Same (HLAvariableArray p rs).decodeFrom (HLAvariableArray p' rs').decodeFrom := by
  have decoded : Matches AllSame (HLAvariableArray.decodeFrom p.receiver (receivers rs))
      (HLAvariableArray.decodeFrom p'.receiver (receivers rs')) := by
    rw [receivers_eq, receivers_eq, HLAvariableArray.decodeFrom, HLAvariableArray.decodeFrom]
    refine matches_after fun nbElements => ?_
    change Matches AllSame (ask p.methods.getOctetBoundary >>= _)
      (ask p'.methods.getOctetBoundary >>= _)
    rw [getOctetBoundary_eq, getOctetBoundary_eq, level.boundary]
    refine matches_after fun boundary => matches_after fun _ => ?_
    by_cases negative : nbElements.msb
    · simp only [if_pos negative]
      exact matches_throw _
    · simp only [if_neg negative]
      have zipped : (rs ++ List.replicate nbElements.toNat p).zip
          (rs' ++ List.replicate nbElements.toNat p') =
          rs.zip rs' ++ List.replicate nbElements.toNat (p, p') := by
        rw [List.zip_append length, List.zip_replicate, Nat.min_self]
      have lengths : (rs ++ List.replicate nbElements.toNat p).length =
          (rs' ++ List.replicate nbElements.toNat p').length := by
        simp [length]
      have paddings := Level.padding lengths fun pair inside => by
        rw [zipped] at inside
        rcases List.mem_append.mp inside with inside | inside
        · exact levels pair inside
        · rw [List.eq_of_mem_replicate inside]
          exact level
      have elements := elements_match lengths fun pair inside => by
        rw [zipped] at inside
        rcases List.mem_append.mp inside with inside | inside
        · exact each pair inside
        · rw [List.eq_of_mem_replicate inside]
          exact prototypes
      rw [← List.map_replicate, ← List.map_replicate, ← List.map_append, ← List.map_append,
        List.map_map, List.map_map, List.map_map, List.map_map]
      change Matches AllSame
        (ask (paddingOfFirst ((rs ++ List.replicate nbElements.toNat p).map methods)) >>= _)
        (ask (paddingOfFirst ((rs' ++ List.replicate nbElements.toNat p').map methods)) >>= _)
      rw [paddings]
      exact matches_after elements
  exact decoded.bind fun ds ds' same => matches_pure (by
    change Contents.HLAarray (allContents ds) = Contents.HLAarray (allContents ds')
    rw [allContents_eq, allContents_eq, same])

theorem fixedRecord_matches {rs rs' : List Datum} (length : rs.length = rs'.length)
    (levels : ∀ pair ∈ rs.zip rs', Level pair.1 pair.2)
    (each : ∀ pair ∈ rs.zip rs', Matches Same pair.1.decodeFrom pair.2.decodeFrom) :
    Matches Same (HLAfixedRecord rs).decodeFrom (HLAfixedRecord rs').decodeFrom := by
  have decoded : Matches AllSame
      (HLAfixedRecord.decodeFrom (fun e : Datum => e.methods.getEncodedLength) (receivers rs))
      (HLAfixedRecord.decodeFrom (fun e : Datum => e.methods.getEncodedLength)
        (receivers rs')) := by
    rw [receivers_eq, receivers_eq]
    cases rs with
    | nil =>
      rw [List.length_eq_zero_iff.mp length.symm]
      exact matches_throw _
    | cons r rest =>
      obtain ⟨r', rest', rfl⟩ := List.exists_cons_of_length_eq_add_one length.symm
      have some : (r :: rest).map receiver ≠ [] := List.cons_ne_nil _ _
      have some' : (r' :: rest').map receiver ≠ [] := List.cons_ne_nil _ _
      rw [HLAfixedRecord.decodeFrom, HLAfixedRecord.decodeFrom, if_neg some, if_neg some']
      exact fields_match length each levels 0
  exact decoded.bind fun ds ds' same => matches_pure (by
    change Contents.HLAfixedRecord (allContents ds) = Contents.HLAfixedRecord (allContents ds')
    rw [allContents_eq, allContents_eq, same])

theorem Twins.matches {r r' : Datum} (twins : Twins r r') :
    Matches Same r.decodeFrom r'.decodeFrom := by
  induction twins with
  | @basic b b' same fixed =>
    have decoders : b.decodeFrom = b'.decodeFrom :=
      congrArg checked (Basic.decodeUnchecked_congr same fixed)
    rw [decodeFrom, decodeFrom, decoders]
    exact (matches_self _).mono fun _ _ equal => congrArg contents equal
  | string b => exact (matches_self _).mono fun _ _ equal => congrArg contents equal
  | HLAopaqueData bufferSize length =>
    rw [decodeFrom, decodeFrom, length]
    exact (matches_self _).mono fun _ _ equal => congrArg contents equal
  | HLAfixedArray length twins each =>
    exact fixedArray_matches length (fun pair inside => (twins pair inside).level) each
  | HLAvariableArray prototypes length twins prototype each =>
    exact variableArray_matches prototypes.level prototype length
      (fun pair inside => (twins pair inside).level) each
  | HLAfixedRecord length twins each =>
    exact fixedRecord_matches length (fun pair inside => (twins pair inside).level) each

end Datum

/-! ## What a scalar reads -/

section Fetching

variable {α β : Type} {p : α → Prop} {q : β → Prop}

/-- Reads `w` octets if they are there, and what it makes of them is `p`. -/
def Fetches (p : α → Prop) (r : Decoder α) (w : Nat) : Prop :=
  ∀ buffer index, (index + w ≤ buffer.length → ∃ a, p a ∧ r buffer index = .ok (a, index + w)) ∧
    (buffer.length < index + w → r buffer index = .error .outOfBuffer)

theorem fetches_octet : Fetches (fun _ => True) octet 1 := by
  intro buffer index
  constructor
  · intro inside
    refine ⟨buffer[index], trivial, ?_⟩
    simp only [octet, next, List.getElem?_eq_getElem (show index < buffer.length by omega)]
  · intro outside
    simp only [octet, next, List.getElem?_eq_none (show buffer.length ≤ index by omega)]

theorem Fetches.map {r : Decoder α} {w : Nat} (first : Fetches p r w) {f : α → β}
    (carries : ∀ a, p a → q (f a)) : Fetches q (do return f (← r)) w := by
  intro buffer index
  constructor
  · intro inside
    obtain ⟨a, holds, done⟩ := (first buffer index).1 inside
    exact ⟨f a, carries a holds, return_ok f done⟩
  · intro outside
    change (r buffer index >>= fun x => _) = _
    rw [(first buffer index).2 outside]
    rfl

theorem Fetches.bind {r : Decoder α} {f : α → Decoder β} {w v : Nat} (first : Fetches p r w)
    (second : ∀ a, p a → Fetches q (f a) v) : Fetches q (r >>= f) (w + v) := by
  intro buffer index
  change (_ → ∃ b, q b ∧ (r buffer index >>= fun x => f x.1 buffer x.2) = _) ∧
    (_ → (r buffer index >>= fun x => f x.1 buffer x.2) = _)
  rw [← Nat.add_assoc]
  by_cases one : index + w ≤ buffer.length
  · obtain ⟨a, holds, done⟩ := (first buffer index).1 one
    rw [done]
    exact second a holds buffer (index + w)
  · constructor
    · intro inside
      omega
    · intro _
      rw [(first buffer index).2 (by omega)]
      rfl

theorem fetches_take (w : Nat) : Fetches (fun _ => True) (take .outOfBuffer (w + 1)) (w + 1) := by
  induction w with
  | zero =>
    exact fetches_octet.map (q := fun _ => True) (f := fun x => [x]) fun _ _ => trivial
  | succ w ih =>
    have both : Fetches (fun _ => True) (take .outOfBuffer (w + 1 + 1)) (1 + (w + 1)) :=
      fetches_octet.bind fun x _ => ih.map (f := (x :: ·)) fun _ _ => trivial
    rwa [Nat.add_comm 1] at both

theorem fetches_decode (o : Order) (w n : Nat) :
    Fetches (fun _ => True) (decode o (w + 1) n) (w + 1) :=
  (fetches_take w).map fun _ _ => trivial

/-- With the check of the index, as a step of a course. -/
theorem Fetches.matches {r : Decoder α} {w : Nat} (fetches : Fetches p r w) :
    Matches (fun a _ => p a) (checked r)
      (course (.stop (.EncoderException "Index superior than buffer size")) .outOfBuffer
        [.scalar w w]) := by
  intro buffer index
  change Ends _ ((if buffer.length ≤ index then
    throw (.stop (.EncoderException "Index superior than buffer size")) else r : Decoder α)
      buffer index) _
  simp only [course]
  by_cases begun : buffer.length ≤ index
  · rw [if_pos begun, if_pos begun]
    exact .error _
  · rw [if_neg begun, if_neg begun]
    by_cases cut : buffer.length < index + w
    · rw [if_pos cut, (fetches buffer index).2 cut]
      exact .error _
    · obtain ⟨a, holds, done⟩ := (fetches buffer index).1 (by omega)
      rw [if_neg cut, done]
      exact .ok _ holds

end Fetching

def refusal : Halt := .stop (.EncoderException "Index superior than buffer size")

/-- The steps with what the basic classes do at the end of the buffer. -/
abbrev courseOf (l : List Move) : Decoder Unit := course refusal .outOfBuffer l

/-- What ends like a course, by where the buffer ends. -/
theorem outcomes {α : Type} {R : α → Unit → Prop} {x : Except Halt (α × Nat)} {l : List Move}
    {buffer : List Octet} {index : Nat} (ends : Ends R x (courseOf l buffer index)) :
    ((∃ a, x = .ok (a, index + span l)) ↔
      ∀ cell ∈ cells l index, cell.1 < buffer.length ∧ cell.1 + cell.2 ≤ buffer.length) ∧
    (x = .error .outOfBuffer ↔
      ∃ cell ∈ cells l index, cell.1 < buffer.length ∧ buffer.length < cell.1 + cell.2) ∧
    (x = .error refusal ↔
      (∃ cell ∈ cells l index, buffer.length ≤ cell.1) ∧
      ∀ cell ∈ cells l index, buffer.length ≤ cell.1 ∨ cell.1 + cell.2 ≤ buffer.length) := by
  rcases course_ends refusal Halt.outOfBuffer l buffer index with
    ⟨done, all⟩ | ⟨done, cut⟩ | ⟨done, behind, none⟩
  · rw [courseOf, done] at ends
    cases ends with
    | @ok a _ _ _ =>
      refine ⟨⟨fun _ => all, fun _ => ⟨a, rfl⟩⟩, ⟨nofun, ?_⟩, ⟨nofun, ?_⟩⟩
      · rintro ⟨cell, inside, _, longer⟩
        have fits := (all cell inside).2
        omega
      · rintro ⟨⟨cell, inside, after⟩, _⟩
        have begins := (all cell inside).1
        omega
  · rw [courseOf, done] at ends
    cases ends
    obtain ⟨cell, inside, begins, longer⟩ := cut
    refine ⟨⟨nofun, fun all => ?_⟩, ⟨fun _ => ⟨cell, inside, begins, longer⟩, fun _ => rfl⟩,
      ⟨nofun, fun refused => ?_⟩⟩
    · have fits := (all cell inside).2
      omega
    · have whole := refused.2 cell inside
      omega
  · rw [courseOf, done] at ends
    cases ends
    refine ⟨⟨nofun, fun all => ?_⟩, ⟨nofun, ?_⟩, ⟨fun _ => ⟨behind, none⟩, fun _ => rfl⟩⟩
    · obtain ⟨cell, inside, after⟩ := behind
      have begins := (all cell inside).1
      omega
    · rintro ⟨cell, inside, begins, longer⟩
      have whole := none cell inside
      omega

namespace Basic

/-- How far the index moves. -/
def moved : Basic → Nat
  | HLAboolean _ => 1
  | b => b.getEncodedLength

theorem fetches_unchecked {b : Basic} (one : b.scalar) :
    Fetches (fun b' => b.SameClass b') b.decodeUnchecked b.getEncodedLength := by
  cases b with
  | HLAASCIIstring | HLAboolean | HLAunicodeString => cases one
  | HLAASCIIchar | HLAbyte | HLAoctet => exact fetches_octet.map fun _ _ => rfl
  | HLAoctetPairLE first second =>
    exact fetches_octet.bind fun a _ => fetches_octet.map
      (q := (HLAoctetPairLE first second).SameClass) (f := HLAoctetPairLE a) fun _ _ => rfl
  | HLAoctetPairBE first second =>
    exact fetches_octet.bind fun a _ => fetches_octet.map
      (q := (HLAoctetPairBE first second).SameClass)
      (f := fun first => HLAoctetPairBE first a) fun _ _ => rfl
  | HLAunicodeChar =>
    exact ((fetches_decode .big 1 16).map (q := fun _ => True) fun _ _ => trivial).map
      fun _ _ => rfl
  | HLAfloat32BE | HLAinteger32BE => exact (fetches_decode .big 3 32).map fun _ _ => rfl
  | HLAfloat32LE | HLAinteger32LE => exact (fetches_decode .little 3 32).map fun _ _ => rfl
  | HLAfloat64BE | HLAinteger64BE => exact (fetches_decode .big 7 64).map fun _ _ => rfl
  | HLAfloat64LE | HLAinteger64LE => exact (fetches_decode .little 7 64).map fun _ _ => rfl
  | HLAinteger16LE => exact (fetches_decode .little 1 16).map fun _ _ => rfl
  | HLAinteger16BE => exact (fetches_decode .big 1 16).map fun _ _ => rfl

/-- A boolean is read like an integer, and the index is set back. -/
theorem boolean_matches (data : Bool) :
    Matches (fun b' _ => (HLAboolean data).SameClass b') (decodeFrom (HLAboolean data))
      (courseOf [.scalar 4 1]) := by
  intro buffer index
  have word := (fetches_decode .big 3 32).matches buffer index
  change Ends _ ((if buffer.length ≤ index then
    throw (.stop (.EncoderException "Index superior than buffer size"))
    else decodeUnchecked (HLAboolean data) : Decoder Basic) buffer index) _
  simp only [course] at word ⊢
  by_cases begun : buffer.length ≤ index
  · rw [if_pos begun, if_pos begun]
    exact .error _
  · rw [if_neg begun] at word
    rw [if_neg begun, if_neg begun]
    change Ends _ ((checked (decode .big 4 32) buffer index >>= fun x =>
      (.ok (decide (x.1 ≠ 0), index + 1) : Except Halt (Bool × Nat))) >>= fun x =>
      .ok (HLAboolean x.1, x.2)) _
    generalize checked (decode .big 4 32) buffer index = read at word ⊢
    by_cases cut : buffer.length < index + 4
    · rw [if_pos cut] at word ⊢
      cases word
      exact .error _
    · rw [if_neg cut] at word ⊢
      cases word
      exact .ok _ rfl

theorem decodeFrom_matches {b : Basic} (fixed : b.sized) :
    Matches (fun b' _ => b.SameClass b') b.decodeFrom
      (courseOf [.scalar b.getEncodedLength b.moved]) := by
  cases b with
  | HLAASCIIstring | HLAunicodeString => cases fixed
  | HLAboolean data => exact boolean_matches data
  | _ => exact (fetches_unchecked rfl).matches

end Basic

namespace Datum

/-! ## Receivers of fixed size -/

/-- No strings, no opaque data, no variable arrays, and nothing that is empty. -/
inductive Steady : Datum → Prop where
  | basic {b : Basic} (fixed : b.sized) : Steady (.basic b)
  | HLAfixedArray {p : Datum} {rs : List Datum} (some : rs ≠ []) (each : ∀ r ∈ rs, Steady r) :
    Steady (.HLAfixedArray p rs)
  | HLAfixedRecord {rs : List Datum} (some : rs ≠ []) (each : ∀ r ∈ rs, Steady r) :
    Steady (.HLAfixedRecord rs)

theorem largest_pos {rs : List Datum} (some : rs ≠ [])
    (each : ∀ r ∈ rs, 0 < r.contents.octetBoundary) :
    0 < Contents.largest (allContents rs) := by
  obtain ⟨r, rest, rfl⟩ := List.exists_cons_of_ne_nil some
  rw [allContents, Contents.largest]
  exact lt_max_of_lt_left (each r List.mem_cons_self)

theorem Steady.positive {r : Datum} (steady : Steady r) : 0 < r.contents.octetBoundary := by
  induction steady with
  | @basic b fixed =>
    change 0 < b.getEncodedLength
    cases b <;> first | exact Nat.succ_pos _ | cases fixed
  | HLAfixedArray some _ each | HLAfixedRecord some _ each => exact largest_pos some each

/-- The padding that an array puts behind each of its elements. -/
def paddingBehind : List Datum → Nat
  | [] => 0
  | e :: _ => HlaArray.calculPaddingAfterEachElements e.contents.encodedLength
    e.contents.octetBoundary

theorem paddingOfFirst_methods (elements : List Datum) :
    paddingOfFirst (elements.map methods) = .ok (paddingBehind elements) := by
  cases elements with
  | nil => rfl
  | cons e rest =>
    rw [List.map_cons, paddingOfFirst, getEncodedLength_eq, getOctetBoundary_eq]
    rfl

/-- The elements of an array. -/
def spaced (P : Nat) : List (List Move) → List Move
  | [] => []
  | [l] => l
  | l :: rest => l ++ .skips P :: spaced P rest

/-- The fields of a record, each with its steps. -/
def aligned (a_offset : Nat) : List (Datum × List Move) → List Move
  | [] => []
  | [(_, l)] => l
  | (e, l) :: (field, l') :: rest =>
    let P := padding (a_offset + e.contents.encodedLength) field.contents.octetBoundary
    l ++ .skips P :: aligned ((a_offset + e.contents.encodedLength + P) % 2 ^ 32)
      ((field, l') :: rest)

mutual

/-- The steps of an element of fixed size through a buffer. -/
def moves : Datum → List Move
  | .basic b => [.scalar b.getEncodedLength b.moved]
  | .HLAopaqueData _ _ | .HLAvariableArray _ _ => []
  | .HLAfixedArray _ elements => spaced (paddingBehind elements) (allMoves elements)
  | .HLAfixedRecord elements => aligned 0 (elements.zip (allMoves elements))

def allMoves : List Datum → List (List Move)
  | [] => []
  | e :: rest => e.moves :: allMoves rest

end

theorem matches_ask {α β γ : Type} {R : α → β → Prop} {x : Except Stop γ} {a : γ}
    {f : γ → Decoder α} {r' : Decoder β} (answer : x = .ok a) (rest : Matches R (f a) r') :
    Matches R (ask x >>= f) r' := by
  rw [answer]
  exact rest

section Courses

variable {rs : List Datum}
  (each : ∀ r ∈ rs, Matches (fun d _ => Twins r d) r.decodeFrom (courseOf r.moves))

include each

theorem elements_course (P : Nat) :
    Matches (fun ds _ => List.Forall₂ Twins rs ds) (separately P (rs.map decodeFrom))
      (courseOf (spaced P (allMoves rs))) := by
  induction rs with
  | nil => exact matches_pure .nil
  | cons r rest ih =>
    have head := each r List.mem_cons_self
    have tail := ih fun r' inside => each r' (List.mem_cons_of_mem _ inside)
    cases rest with
    | nil => exact head.map fun d _ twins => .cons twins .nil
    | cons field rest =>
      change Matches _ _ (courseOf (r.moves ++ .skips P :: spaced P (allMoves (field :: rest))))
      rw [courseOf, course_append]
      exact head.bind fun d _ twins => matches_after fun _ =>
        tail.map fun ds _ others => .cons twins others

theorem fields_course (steady : ∀ r ∈ rs, 0 < r.contents.octetBoundary) (a_offset : Nat) :
    Matches (fun ds _ => List.Forall₂ Twins rs ds)
      (HLAfixedRecord.decodeAfter (fun e : Datum => e.methods.getEncodedLength) a_offset
        (rs.map receiver)) (courseOf (aligned a_offset (rs.zip (allMoves rs)))) := by
  induction rs generalizing a_offset with
  | nil => exact matches_pure .nil
  | cons r rest ih =>
    have head := each r List.mem_cons_self
    have tail := ih (fun r' inside => each r' (List.mem_cons_of_mem _ inside))
      fun r' inside => steady r' (List.mem_cons_of_mem _ inside)
    cases rest with
    | nil => exact head.map fun d _ twins => .cons twins .nil
    | cons field rest =>
      have positive := steady field (List.mem_cons_of_mem _ List.mem_cons_self)
      have nonzero : field.contents.octetBoundary ≠ 0 := by omega
      change Matches _ _ (courseOf (r.moves ++ .skips (padding (a_offset +
        r.contents.encodedLength) field.contents.octetBoundary) :: aligned _ _))
      rw [courseOf, course_append]
      refine head.bind fun d _ twins => ?_
      -- what was decoded is as long as what was there before
      refine matches_ask (getEncodedLength_eq d) (matches_ask (getOctetBoundary_eq field) ?_)
      rw [if_neg nonzero, ← twins.level.length]
      exact matches_after fun _ => (tail _).map fun ds _ others => .cons twins others

end Courses

theorem steady_array_course {p : Datum} {rs : List Datum} (some : rs ≠ [])
    (each : ∀ r ∈ rs, Matches (fun d _ => Twins r d) r.decodeFrom (courseOf r.moves)) :
    Matches (fun ds _ => List.Forall₂ Twins rs ds) (HLAfixedArray.decodeFrom (receivers rs))
      (courseOf (HLAfixedArray p rs).moves) := by
  have there : rs.map receiver ≠ [] := fun none => some (List.map_eq_nil_iff.mp none)
  rw [receivers_eq, HLAfixedArray.decodeFrom, if_neg there, List.map_map, List.map_map]
  exact matches_ask (paddingOfFirst_methods rs) (elements_course each (paddingBehind rs))

theorem steady_record_course {rs : List Datum} (some : rs ≠ [])
    (steady : ∀ r ∈ rs, 0 < r.contents.octetBoundary)
    (each : ∀ r ∈ rs, Matches (fun d _ => Twins r d) r.decodeFrom (courseOf r.moves)) :
    Matches (fun ds _ => List.Forall₂ Twins rs ds)
      (HLAfixedRecord.decodeFrom (fun e : Datum => e.methods.getEncodedLength) (receivers rs))
      (courseOf (HLAfixedRecord rs).moves) := by
  have there : rs.map receiver ≠ [] := fun none => some (List.map_eq_nil_iff.mp none)
  rw [receivers_eq, HLAfixedRecord.decodeFrom, if_neg there]
  exact fields_course each steady 0

/-- A receiver of fixed size goes its own course through every buffer, and becomes its twin. -/
theorem Steady.course {r : Datum} (steady : Steady r) :
    Matches (fun d _ => Twins r d) r.decodeFrom (courseOf r.moves) := by
  induction steady with
  | basic fixed =>
    exact (Basic.decodeFrom_matches fixed).map fun b' _ same =>
      .basic same (same.sized.symm.trans fixed)
  | HLAfixedArray some _ each =>
    refine (steady_array_course some each).map fun ds _ twins => ?_
    obtain ⟨length, every⟩ := List.forall₂_iff_zip.mp twins
    exact .HLAfixedArray length fun pair inside => every inside
  | HLAfixedRecord some steady each =>
    refine (steady_record_course some (fun r inside => (steady r inside).positive) each).map
      fun ds _ twins => ?_
    obtain ⟨length, every⟩ := List.forall₂_iff_zip.mp twins
    exact .HLAfixedRecord length fun pair inside => every inside

/-- What a receiver held before is gone: on any buffer, two receivers of one type, with as many
elements and octets and with the same strings, end alike and then show the same. A receiver of
fixed size that decodes a buffer again shows the same again. -/
theorem decode_replaces {r r' : Datum} (twins : Twins r r') (buffer : List Octet) (index : Nat) :
    Ends (fun d d' => d.contents = d'.contents) (r.decodeFrom buffer index)
        (r'.decodeFrom buffer index) ∧
      (Steady r → ∀ d index', r.decodeFrom buffer index = .ok (d, index') →
        ∃ d', d.decodeFrom buffer index = .ok (d', index') ∧ d'.contents = d.contents) := by
  refine ⟨twins.matches buffer index, fun steady d index' done => ?_⟩
  have became := steady.course buffer index
  rw [done] at became
  generalize courseOf r.moves buffer index = x at became
  cases became with
  | ok _ twin =>
    have again := twin.matches buffer index
    rw [done] at again
    generalize d.decodeFrom buffer index = y at again
    cases again with
    | @ok _ d' _ same => exact ⟨d', rfl, same.symm⟩

theorem decode_replaces_octets :
    Ends (fun d d' => d.contents = d'.contents)
        ((HLAfixedRecord [.basic (.HLAoctet 1), .basic (.HLAboolean true)]).decodeFrom
          [3, 0, 0, 0, 0, 0, 0, 0] 0)
        ((HLAfixedRecord [.basic (.HLAoctet 2), .basic (.HLAboolean false)]).decodeFrom
          [3, 0, 0, 0, 0, 0, 0, 0] 0) ∧
      (Steady (HLAfixedRecord [.basic (.HLAoctet 1), .basic (.HLAboolean true)]) →
        ∀ d index', (HLAfixedRecord [.basic (.HLAoctet 1), .basic (.HLAboolean true)]).decodeFrom
          [3, 0, 0, 0, 0, 0, 0, 0] 0 = .ok (d, index') →
          ∃ d', d.decodeFrom [3, 0, 0, 0, 0, 0, 0, 0] 0 = .ok (d', index') ∧
            d'.contents = d.contents) := by
  refine decode_replaces (.HLAfixedRecord rfl fun pair inside => ?_) _ 0
  rcases List.mem_cons.mp inside with rfl | inside
  · exact .basic rfl rfl
  · cases List.mem_singleton.mp inside
    exact .basic rfl rfl

/-- Decoding into a receiver of fixed size from any buffer: it succeeds if every scalar is inside,
reads behind the buffer if the buffer ends within a scalar, and is refused otherwise. -/
theorem decode_anything {r : Datum} (steady : Steady r) (buffer : List Octet) (index : Nat) :
    ((∃ d, r.decodeFrom buffer index = .ok (d, index + span r.moves)) ↔
      ∀ cell ∈ cells r.moves index, cell.1 < buffer.length ∧ cell.1 + cell.2 ≤ buffer.length) ∧
    (r.decodeFrom buffer index = .error .outOfBuffer ↔
      ∃ cell ∈ cells r.moves index, cell.1 < buffer.length ∧ buffer.length < cell.1 + cell.2) ∧
    (r.decodeFrom buffer index = .error refusal ↔
      (∃ cell ∈ cells r.moves index, buffer.length ≤ cell.1) ∧
      ∀ cell ∈ cells r.moves index,
        buffer.length ≤ cell.1 ∨ cell.1 + cell.2 ≤ buffer.length) :=
  outcomes (steady.course buffer index)

/-- An octet and, behind three octets of padding, an integer. -/
def octetAndInteger : Datum :=
  .HLAfixedRecord [.basic (.HLAoctet 0), .basic (.HLAinteger32BE 0)]

theorem octetAndInteger_steady : Steady octetAndInteger := by
  refine .HLAfixedRecord (List.cons_ne_nil _ _) fun r inside => ?_
  rcases List.mem_cons.mp inside with rfl | inside
  · exact .basic rfl
  · cases List.mem_singleton.mp inside
    exact .basic rfl

theorem decode_anything_truncated :
    ((∃ d, octetAndInteger.decodeFrom [1, 2, 3, 4, 5, 6] 0 = .ok (d, 0 + 8)) ↔
      ∀ cell ∈ [(0, 1), (4, 4)], cell.1 < 6 ∧ cell.1 + cell.2 ≤ 6) ∧
    (octetAndInteger.decodeFrom [1, 2, 3, 4, 5, 6] 0 = .error .outOfBuffer ↔
      ∃ cell ∈ [(0, 1), (4, 4)], cell.1 < 6 ∧ 6 < cell.1 + cell.2) ∧
    (octetAndInteger.decodeFrom [1, 2, 3, 4, 5, 6] 0 = .error refusal ↔
      (∃ cell ∈ [(0, 1), (4, 4)], 6 ≤ cell.1) ∧
      ∀ cell ∈ [(0, 1), (4, 4)], 6 ≤ cell.1 ∨ cell.1 + cell.2 ≤ 6) :=
  decode_anything octetAndInteger_steady [1, 2, 3, 4, 5, 6] 0

/-! ## Counts that nobody checked -/

/-- The count, the padding behind it and that many copies of the prototype. -/
def counted (p : Datum) (n : Nat) : List Move :=
  .scalar 4 4 :: .skips (HlaArray.calculPaddingAfterNbElements p.contents.octetBoundary) ::
    spaced (paddingBehind (List.replicate n p)) (allMoves (List.replicate n p))

theorem decode_inside (o : Order) {w n : Nat} {buffer : List Octet} {index : Nat}
    (inside : index + w ≤ buffer.length) :
    decode o w n buffer index = .ok (word o n ((buffer.drop index).take w), index + w) := by
  have before : (buffer.take index).length = index := by
    rw [List.length_take]
    omega
  have octets : ((buffer.drop index).take w).length = w := by
    rw [List.length_take, List.length_drop]
    omega
  have whole : buffer.take index ++ (buffer.drop index).take w ++ buffer.drop (index + w) =
      buffer := by
    rw [List.append_assoc, ← List.drop_drop, List.take_append_drop, List.take_append_drop]
  have read := (yields_take Halt.outOfBuffer ((buffer.drop index).take w)).map (word o n)
    (buffer.take index) (buffer.drop (index + w))
  rw [whole, before, octets] at read
  exact read

theorem checked_eq {α : Type} (r : Decoder α) (buffer : List Octet) (index : Nat) :
    checked r buffer index =
      if buffer.length ≤ index then .error refusal else r buffer index := by
  by_cases behind : buffer.length ≤ index
  · rw [if_pos behind]
    change (if buffer.length ≤ index then
      throw (.stop (.EncoderException "Index superior than buffer size"))
      else r : Decoder α) buffer index = _
    rw [if_pos behind]
    rfl
  · rw [if_neg behind]
    change (if buffer.length ≤ index then
      throw (.stop (.EncoderException "Index superior than buffer size"))
      else r : Decoder α) buffer index = _
    rw [if_neg behind]

/-- The count, which is then known. -/
theorem count_ends {buffer : List Octet} {index : Nat} {nbElements : BitVec 32}
    (count : word .big 32 ((buffer.drop index).take 4) = nbElements) :
    Ends (fun n _ => n = nbElements ∧ index + 4 ≤ buffer.length)
      (checked (decode .big 4 32) buffer index) (courseOf [.scalar 4 4] buffer index) := by
  rw [checked_eq, courseOf]
  simp only [course]
  by_cases begun : buffer.length ≤ index
  · rw [if_pos begun, if_pos begun]
    exact .error _
  · rw [if_neg begun, if_neg begun]
    by_cases cut : buffer.length < index + 4
    · rw [if_pos cut, ((fetches_decode .big 3 32) buffer index).2 cut]
      exact .error _
    · have inside : index + 4 ≤ buffer.length := by omega
      rw [if_neg cut, decode_inside .big inside, count]
      exact .ok _ ⟨rfl, inside⟩

theorem counted_ends {p : Datum} (steady : Steady p) {buffer : List Octet} {index : Nat}
    {nbElements : BitVec 32} (count : word .big 32 ((buffer.drop index).take 4) = nbElements)
    (positive : index + 4 ≤ buffer.length → nbElements.msb = false) :
    Ends (fun d _ => ∃ ds, d = HLAvariableArray p ds ∧
        List.Forall₂ Twins (List.replicate nbElements.toNat p) ds)
      ((HLAvariableArray p []).decodeFrom buffer index)
      (courseOf (counted p nbElements.toNat) buffer index) := by
  have each : ∀ r ∈ List.replicate nbElements.toNat p,
      Matches (fun d _ => Twins r d) r.decodeFrom (courseOf r.moves) := by
    intro r inside
    rw [List.eq_of_mem_replicate inside]
    exact steady.course
  have copies := elements_course each (paddingBehind (List.replicate nbElements.toNat p))
  have decoded : Ends (fun ds _ => List.Forall₂ Twins (List.replicate nbElements.toNat p) ds)
      (HLAvariableArray.decodeFrom p.receiver [] buffer index)
      (courseOf ([.scalar 4 4] ++ .skips (HlaArray.calculPaddingAfterNbElements
        p.contents.octetBoundary) :: spaced (paddingBehind (List.replicate nbElements.toNat p))
          (allMoves (List.replicate nbElements.toNat p))) buffer index) := by
    rw [courseOf, course_append]
    refine (count_ends count).bind fun n _ known => ?_
    obtain ⟨rfl, inside⟩ := known
    have sign := positive inside
    refine matches_ask (getOctetBoundary_eq p) ?_
    refine Matches.bind (matches_self (skip (HlaArray.calculPaddingAfterNbElements
      p.contents.octetBoundary))) fun _ _ _ => ?_
    simp only [sign]
    change Matches _ (ask (paddingOfFirst (([] ++ List.replicate n.toNat p.receiver).map
      Receiver.methods)) >>= _) _
    rw [List.nil_append, ← List.map_replicate, List.map_map, List.map_map]
    exact matches_ask (paddingOfFirst_methods _) copies
  exact decoded.map fun ds _ twins => ⟨ds, rfl, twins⟩

/-- Decoding into an empty variable array of elements of fixed size, from any buffer: a negative
count ends in `std::length_error`, and with every other one the array takes as many copies of the
prototype through the buffer, to succeed, to be refused or to read behind the buffer as a receiver
of fixed size does. -/
theorem decode_counted {p : Datum} (steady : Steady p) (buffer : List Octet) (index : Nat)
    (nbElements : BitVec 32) (count : word .big 32 ((buffer.drop index).take 4) = nbElements) :
    (index + 4 ≤ buffer.length → nbElements.msb = true →
      (HLAvariableArray p []).decodeFrom buffer index = .error .lengthError) ∧
    ((index + 4 ≤ buffer.length → nbElements.msb = false) →
      ((∃ ds, ds.length = nbElements.toNat ∧ (HLAvariableArray p []).decodeFrom buffer index =
          .ok (HLAvariableArray p ds, index + span (counted p nbElements.toNat))) ↔
        ∀ cell ∈ cells (counted p nbElements.toNat) index,
          cell.1 < buffer.length ∧ cell.1 + cell.2 ≤ buffer.length) ∧
      ((HLAvariableArray p []).decodeFrom buffer index = .error .outOfBuffer ↔
        ∃ cell ∈ cells (counted p nbElements.toNat) index,
          cell.1 < buffer.length ∧ buffer.length < cell.1 + cell.2) ∧
      ((HLAvariableArray p []).decodeFrom buffer index = .error refusal ↔
        (∃ cell ∈ cells (counted p nbElements.toNat) index, buffer.length ≤ cell.1) ∧
        ∀ cell ∈ cells (counted p nbElements.toNat) index,
          buffer.length ≤ cell.1 ∨ cell.1 + cell.2 ≤ buffer.length)) := by
  constructor
  · intro inside negative
    have begun : ¬buffer.length ≤ index := by omega
    change ((checked (decode .big 4 32) buffer index >>= fun x => _) >>= fun x => _) = _
    rw [checked_eq, if_neg begun, decode_inside .big inside, count]
    change (ask p.methods.getOctetBoundary buffer (index + 4) >>= _) >>= _ = _
    rw [getOctetBoundary_eq]
    simp only [negative]
    rfl
  · intro positive
    have ends := counted_ends steady count positive
    obtain ⟨success, outside, refused⟩ := outcomes ends
    refine ⟨?_, outside, refused⟩
    rw [← success]
    constructor
    · rintro ⟨ds, _, done⟩
      exact ⟨_, done⟩
    · rintro ⟨d, done⟩
      rw [done] at ends
      generalize courseOf (counted p nbElements.toNat) buffer index = x at ends
      cases ends with
      | ok _ became =>
        obtain ⟨ds, rfl, twins⟩ := became
        have length := twins.length_eq
        rw [List.length_replicate] at length
        exact ⟨ds, length.symm, done⟩

theorem decode_counted_negative :
    (HLAvariableArray (.basic (.HLAoctet 0)) []).decodeFrom [255, 255, 255, 255, 1] 0 =
      .error .lengthError :=
  (decode_counted (.basic rfl) [255, 255, 255, 255, 1] 0 (-1) (by decide)).1 (by decide)
    (by decide)

end Datum

end Certi.Encoding
