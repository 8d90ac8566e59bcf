import Certi.Lib.Collect
import Certi.LibRTI.Decoding

/-!
# From encoding to decoding

Which elements come back from the octets that they were encoded into, wherever these
stand in a buffer: for each kind of container from its parts, and from there for
all elements, and which records no receiver decodes.
-/
namespace Certi.Encoding

open Bytes Reading Collect

/-! ## The parts of a container -/

@[simp] theorem written_append (l l' : List Octet) : written (l ++ l') = written l ++ written l' :=
  List.map_append

@[simp] theorem written_zeros (P : Nat) : written (List.replicate P 0) = zeros P :=
  List.map_replicate

section Yielding

variable {α : Type} {octets : List Octet}

theorem yields_ask {x : Except Stop α} {a : α} (answer : x = .ok a) : Yields (ask x) [] a := by
  rw [answer]
  exact yields_pure a

theorem checked_inside {r : Decoder α} (some : octets ≠ []) (before after : List Octet) :
    checked r (before ++ octets ++ after) before.length =
      r (before ++ octets ++ after) before.length := by
  have inside : ¬(before ++ octets ++ after).length ≤ before.length := by
    have positive := List.length_pos_iff.mpr some
    simp only [List.length_append]
    omega
  change (if (before ++ octets ++ after).length ≤ before.length then
    throw (.stop (.EncoderException "Index superior than buffer size"))
    else r : Decoder α) (before ++ octets ++ after) before.length = _
  rw [if_neg inside]

theorem yields_checked {r : Decoder α} {a : α} (some : octets ≠ []) (yields : Yields r octets a) :
    Yields (checked r) octets a := by
  intro before after
  rw [checked_inside some]
  exact yields before after

theorem yields_octet (x : Octet) : Yields octet [x] x := yields_next _ x

theorem yields_decode (o : Order) {w n : Nat} (whole : n = 8 * w) (x : BitVec n) :
    Yields (decode o w n) (layout o w x) x := by
  have read := (yields_take Halt.outOfBuffer (layout o w x)).map (word o n)
  rw [length_layout, word_layout o whole] at read
  exact read

end Yielding

/-- An element that is encoded, by its methods and by what it shows. -/
structure Sent (β : Type) where
  methods : Methods
  shown : β

section Carrying

variable {α β : Type} {shows : α → β}

/-- The element is encoded, and `r` decodes its octets into a value that shows the same. -/
def Carries (shows : α → β) (r : Receiver α) (s : Sent β) : Prop :=
  ∃ octets a, s.methods.encodeInto = .ok (written octets) ∧ shows a = s.shown ∧
    Yields r.decodeFrom octets a

theorem separately_carries {parts : List (Receiver α × Sent β)}
    (each : ∀ part ∈ parts, Carries shows part.1 part.2) (P : Nat) :
    ∃ octets as, separated P (parts.map fun part => part.2.methods) = .ok (written octets) ∧
      as.map shows = parts.map (fun part => part.2.shown) ∧
      Yields (separately P (parts.map fun part => part.1.decodeFrom)) octets as := by
  induction parts with
  | nil => exact ⟨[], [], rfl, rfl, yields_pure []⟩
  | cons part rest ih =>
    obtain ⟨octets, a, encoded, same, decodes⟩ := each part List.mem_cons_self
    obtain ⟨others, as, encodedRest, sameRest, decodesRest⟩ :=
      ih fun part' inside => each part' (List.mem_cons_of_mem _ inside)
    cases rest with
    | nil => exact ⟨octets, [a], encoded, by simp [same], decodes.map fun a => [a]⟩
    | cons next rest =>
      refine ⟨octets ++ (List.replicate P 0 ++ others), a :: as, ?_, ?_, ?_⟩
      · simp only [List.map_cons] at encodedRest ⊢
        rw [separated, encodedRest, encoded, written_append, written_append, written_zeros,
          ← List.append_assoc]
        · rfl
        · simp
      · rw [List.map_cons, List.map_cons, sameRest, same]
      · have skips := yields_skip (ε := Halt) (List.replicate P (0 : Octet))
        rw [List.length_replicate] at skips
        exact decodes.bind (skips.bind (decodesRest.map (a :: ·)))

theorem map_zip_left {α β γ : Type} {l : List α} {l' : List β} (length : l.length = l'.length)
    (f : α → γ) : (l.zip l').map (fun pair => f pair.1) = l.map f := by
  calc (l.zip l').map (fun pair => f pair.1)
      = ((l.zip l').map Prod.fst).map f := by rw [List.map_map]; rfl
    _ = l.map f := by rw [List.map_fst_zip (Nat.le_of_eq length)]

theorem map_zip_right {α β γ : Type} {l : List α} {l' : List β} (length : l.length = l'.length)
    (f : β → γ) : (l.zip l').map (fun pair => f pair.2) = l'.map f := by
  calc (l.zip l').map (fun pair => f pair.2)
      = ((l.zip l').map Prod.snd).map f := by rw [List.map_map]; rfl
    _ = l'.map f := by rw [List.map_snd_zip (Nat.le_of_eq length.symm)]

/-- No padding is looked at before the second element. -/
theorem separately_short (P Q : Nat) {l : List (Decoder α)} (short : l.length ≤ 1) :
    separately P l = separately Q l := by
  match l with
  | [] | [_] => rfl
  | _ :: _ :: _ => simp at short

/-- Elements that stand apart as the receivers expect, where there are several. -/
theorem arranged_carries {rs : List (Receiver α)} {sent : List (Sent β)} {P Q : Nat}
    (length : rs.length = sent.length) (agreed : 1 < sent.length → Q = P)
    (each : ∀ part ∈ rs.zip sent, Carries shows part.1 part.2) :
    ∃ octets as, separated P (sent.map Sent.methods) = .ok (written octets) ∧
      as.map shows = sent.map Sent.shown ∧
      Yields (separately Q (rs.map Receiver.decodeFrom)) octets as := by
  obtain ⟨octets, as, encoded, same, decodes⟩ := separately_carries each P
  rw [map_zip_right length] at encoded same
  rw [map_zip_left length] at decodes
  refine ⟨octets, as, encoded, same, ?_⟩
  by_cases several : 1 < sent.length
  · rwa [agreed several]
  · rwa [separately_short Q P (by rw [List.length_map]; omega)]

theorem HLAfixedArray.carries {rs : List (Receiver α)} {sent : List (Sent β)} {P Q : Nat}
    (length : rs.length = sent.length) (some : sent ≠ [])
    (put : paddingOfFirst (sent.map Sent.methods) = .ok P)
    (expected : paddingOfFirst (rs.map Receiver.methods) = .ok Q)
    (agreed : 1 < sent.length → Q = P)
    (each : ∀ part ∈ rs.zip sent, Carries shows part.1 part.2) :
    ∃ octets as, HLAfixedArray.encodeInto (sent.map Sent.methods) = .ok (written octets) ∧
      as.map shows = sent.map Sent.shown ∧
      Yields (HLAfixedArray.decodeFrom rs) octets as := by
  obtain ⟨octets, as, encoded, same, decodes⟩ := arranged_carries length agreed each
  have there : rs ≠ [] := by
    rintro rfl
    exact some (List.length_eq_zero_iff.mp length.symm)
  refine ⟨octets, as, ?_, same, ?_⟩
  · rw [HLAfixedArray.encodeInto, put, if_neg (by rwa [List.map_eq_nil_iff])]
    exact encoded
  · rw [HLAfixedArray.decodeFrom, if_neg there]
    exact (yields_ask expected).after decodes

/-- The count, the padding behind it and the elements, for a receiver that is empty. -/
theorem HLAvariableArray.carries {prototype : Receiver α} {own : Methods} {sent : List (Sent β)}
    {v v' P Q : Nat} (small : sent.length < 2 ^ 31)
    (boundary : own.getOctetBoundary = .ok v)
    (boundary' : prototype.methods.getOctetBoundary = .ok v')
    (gap : HlaArray.calculPaddingAfterNbElements v' = HlaArray.calculPaddingAfterNbElements v)
    (put : paddingOfFirst (sent.map Sent.methods) = .ok P)
    (expected : paddingOfFirst (List.replicate sent.length prototype.methods) = .ok Q)
    (agreed : 1 < sent.length → Q = P) (each : ∀ s ∈ sent, Carries shows prototype s) :
    ∃ octets as, HLAvariableArray.encodeInto own (sent.map Sent.methods) = .ok (written octets) ∧
      as.map shows = sent.map Sent.shown ∧
      Yields (HLAvariableArray.decodeFrom prototype []) octets as := by
  have every : ∀ part ∈ (List.replicate sent.length prototype).zip sent,
      Carries shows part.1 part.2 := by
    intro part inside
    have parts := List.of_mem_zip inside
    rw [List.eq_of_mem_replicate parts.1]
    exact each _ parts.2
  obtain ⟨octets, as, encoded, same, decodes⟩ :=
    arranged_carries List.length_replicate agreed every
  refine ⟨layout .big 4 (BitVec.ofNat 32 sent.length) ++
    (List.replicate (HlaArray.calculPaddingAfterNbElements v) 0 ++ octets), as, ?_, same, ?_⟩
  · rw [HLAvariableArray.encodeInto, put, boundary, if_neg (by rw [List.length_map]; omega),
      List.length_map]
    simp only [bind, Except.bind, pure, Except.pure]
    rw [encoded, written_append, written_append, written_zeros, ← List.append_assoc]
    rfl
  · have counted : (BitVec.ofNat 32 sent.length).toNat = sent.length := by
      rw [BitVec.toNat_ofNat]
      omega
    have positive : (BitVec.ofNat 32 sent.length).msb = false := by
      rw [BitVec.msb_eq_false_iff_two_mul_lt, counted]
      omega
    have paddings : paddingOfFirst (([] ++ List.replicate sent.length prototype).map
        Receiver.methods) = .ok Q := by
      rw [List.nil_append, List.map_replicate]
      exact expected
    have word := yields_checked (by simp [layout, digits])
      (yields_decode .big (w := 4) (n := 32) rfl (BitVec.ofNat 32 sent.length))
    have skips := yields_skip (ε := Halt)
      (List.replicate (HlaArray.calculPaddingAfterNbElements v) (0 : Octet))
    rw [List.length_replicate] at skips
    refine word.bind ((yields_ask boundary').after ?_)
    rw [gap]
    refine skips.bind ?_
    rw [positive, counted]
    exact (yields_ask paddings).after decodes

end Carrying

/-! ## Elements from their parts -/

namespace Datum

def sent (e : Datum) : Sent Contents := ⟨e.methods, e.contents⟩

/-- The element is encoded, and `r` becomes what it shows by decoding the octets. -/
def Received (r e : Datum) : Prop := Carries contents r.receiver e.sent

theorem mem_zip_map {rs es : List Datum} (each : ∀ pair ∈ rs.zip es, Received pair.1 pair.2) :
    ∀ part ∈ (rs.map receiver).zip (es.map sent), Carries contents part.1 part.2 := by
  rw [List.zip_map]
  intro part inside
  obtain ⟨pair, there, rfl⟩ := List.mem_map.mp inside
  exact each pair there

theorem paddingOfFirst_eq (elements : List Datum) :
    ∃ P, paddingOfFirst (elements.map methods) = .ok P := by
  cases elements with
  | nil => exact ⟨0, rfl⟩
  | cons e rest =>
    rw [List.map_cons, paddingOfFirst, getEncodedLength_eq, getOctetBoundary_eq]
    exact ⟨_, rfl⟩

/-- The paddings that two lists of elements agree on. -/
theorem agreed_paddings {l l' : List Methods} {n P Q : Nat}
    (agreed : 1 < n → paddingOfFirst l = paddingOfFirst l') (expected : paddingOfFirst l = .ok Q)
    (put : paddingOfFirst l' = .ok P) (several : 1 < n) : Q = P := by
  have same := agreed several
  rw [expected, put] at same
  exact Except.ok.inj same

theorem contents_map {ds es : List Datum}
    (same : ds.map contents = (es.map sent).map Sent.shown) :
    allContents ds = allContents es := by
  rw [allContents_eq, allContents_eq, same, List.map_map]
  rfl

theorem fixedArray_received {p q : Datum} {rs es : List Datum} (length : rs.length = es.length)
    (some : es ≠ [])
    (agreed : 1 < es.length → paddingOfFirst (rs.map methods) = paddingOfFirst (es.map methods))
    (each : ∀ pair ∈ rs.zip es, Received pair.1 pair.2) :
    Received (.HLAfixedArray p rs) (.HLAfixedArray q es) := by
  obtain ⟨P, put⟩ := paddingOfFirst_eq es
  obtain ⟨Q, expected⟩ := paddingOfFirst_eq rs
  have lengths : (rs.map receiver).length = (es.map sent).length := by simpa using length
  have put' : paddingOfFirst ((es.map sent).map Sent.methods) = .ok P := by
    rwa [List.map_map]
  have expected' : paddingOfFirst ((rs.map receiver).map Receiver.methods) = .ok Q := by
    rwa [List.map_map]
  have apart : 1 < (es.map sent).length → Q = P := by
    rw [List.length_map]
    exact agreed_paddings agreed expected put
  obtain ⟨octets, ds, encoded, same, decodes⟩ := HLAfixedArray.carries lengths
    (by simpa using some) put' expected' apart (mem_zip_map each)
  refine ⟨octets, .HLAfixedArray p ds, ?_, ?_, ?_⟩
  · change HLAfixedArray.encodeInto (Element.allMethods (allElements es)) = _
    rw [allMethods_allElements]
    rwa [List.map_map] at encoded
  · change Contents.HLAarray (allContents ds) = Contents.HLAarray (allContents es)
    rw [contents_map same]
  · rw [← receivers_eq] at decodes
    exact decodes.map (Datum.HLAfixedArray p)

theorem variableArray_received {p q : Datum} {es : List Datum} (small : es.length < 2 ^ 31)
    (count : p.methods.getOctetBoundary.map HlaArray.calculPaddingAfterNbElements =
      q.methods.getOctetBoundary.map HlaArray.calculPaddingAfterNbElements)
    (agreed : 1 < es.length → paddingOfFirst [p.methods] = paddingOfFirst (es.map methods))
    (each : ∀ e ∈ es, Received p e) :
    Received (.HLAvariableArray p []) (.HLAvariableArray q es) := by
  obtain ⟨P, put⟩ := paddingOfFirst_eq es
  obtain ⟨Q, expected⟩ := paddingOfFirst_eq (List.replicate es.length p)
  rw [List.map_replicate] at expected
  have clones : 1 < es.length →
      paddingOfFirst (List.replicate es.length p.methods) = paddingOfFirst (es.map methods) := by
    intro several
    rw [← agreed several]
    obtain ⟨n, more⟩ : ∃ n, es.length = n + 1 := ⟨es.length - 1, by omega⟩
    rw [more, List.replicate_succ]
    rfl
  have boundary := getOctetBoundary_eq q
  have boundary' := getOctetBoundary_eq p
  have gap : HlaArray.calculPaddingAfterNbElements p.contents.octetBoundary =
      HlaArray.calculPaddingAfterNbElements q.contents.octetBoundary := by
    rw [boundary, boundary'] at count
    exact Except.ok.inj count
  have length : (es.map sent).length = es.length := List.length_map _
  have put' : paddingOfFirst ((es.map sent).map Sent.methods) = .ok P := by
    rwa [List.map_map]
  have every : ∀ s ∈ es.map sent, Carries contents p.receiver s := by
    intro s inside
    obtain ⟨e, there, rfl⟩ := List.mem_map.mp inside
    exact each e there
  obtain ⟨octets, ds, encoded, same, decodes⟩ := HLAvariableArray.carries
    (by rwa [length]) boundary boundary' gap put' (by rw [length]; exact expected)
    (by rw [length]; exact agreed_paddings clones expected put) every
  refine ⟨octets, .HLAvariableArray p ds, ?_, ?_, ?_⟩
  · change HLAvariableArray.encodeInto q.methods (Element.allMethods (allElements es)) = _
    rw [allMethods_allElements]
    rwa [List.map_map] at encoded
  · change Contents.HLAarray (allContents ds) = Contents.HLAarray (allContents es)
    rw [contents_map same]
  · exact decodes.map (Datum.HLAvariableArray p)

theorem decodeAfter_received {pairs : List (Datum × Datum)}
    (each : ∀ pair ∈ pairs, Received pair.1 pair.2) (a_offset : Nat)
    (next : ∀ pair ∈ pairs.tail, pair.1.methods.getOctetBoundary =
      pair.2.methods.getOctetBoundary ∧ pair.2.methods.getOctetBoundary ≠ .ok 0) :
    ∃ octets ds, HLAfixedRecord.encodeFrom a_offset (pairs.map fun pair => pair.2.methods) =
        .ok (written octets) ∧
      ds.map contents = pairs.map (fun pair => pair.2.contents) ∧
      Yields (HLAfixedRecord.decodeAfter (fun e : Datum => e.methods.getEncodedLength) a_offset
        (pairs.map fun pair => pair.1.receiver)) octets ds := by
  induction pairs generalizing a_offset with
  | nil => exact ⟨[], [], rfl, rfl, yields_pure []⟩
  | cons pair rest ih =>
    obtain ⟨octets, d, encoded, same, decodes⟩ := each pair List.mem_cons_self
    have head : pair.2.methods.encodeInto = .ok (written octets) := encoded
    have shown : d.contents = pair.2.contents := same
    cases rest with
    | nil => exact ⟨octets, [d], encoded, by simp [shown], decodes.map fun d => [d]⟩
    | cons field rest =>
      -- what was decoded is as long as what was encoded
      have size := getEncodedLength_eq pair.2
      have decodedSize := getEncodedLength_eq d
      rw [shown] at decodedSize
      obtain ⟨boundary, positive⟩ := next field List.mem_cons_self
      have V := getOctetBoundary_eq field.2
      rw [V] at boundary positive
      generalize pair.2.contents.encodedLength = sizeElement at size decodedSize
      generalize field.2.contents.octetBoundary = v at V boundary positive
      have nonzero : v ≠ 0 := fun zero => positive (by rw [zero])
      obtain ⟨others, ds, encodedRest, sameRest, decodesRest⟩ :=
        ih (fun pair' inside => each pair' (List.mem_cons_of_mem _ inside))
          ((a_offset + sizeElement + padding (a_offset + sizeElement) v) % 2 ^ 32)
          fun pair' inside => next pair' (List.mem_of_mem_tail inside)
      refine ⟨octets ++ (List.replicate (padding (a_offset + sizeElement) v) 0 ++ others),
        d :: ds, ?_, ?_, ?_⟩
      · simp only [List.map_cons] at encodedRest ⊢
        simp only [HLAfixedRecord.encodeFrom, head, size, V, bind, Except.bind, if_neg nonzero]
        rw [encodedRest, written_append, written_append, written_zeros, ← List.append_assoc]
        rfl
      · rw [List.map_cons, List.map_cons, sameRest, shown]
      · have skips := yields_skip (ε := Halt)
          (List.replicate (padding (a_offset + sizeElement) v) (0 : Octet))
        rw [List.length_replicate] at skips
        refine decodes.bind ((yields_ask decodedSize).after ((yields_ask boundary).after ?_))
        simp only [if_neg nonzero]
        exact skips.bind (decodesRest.map (d :: ·))

/-- A record whose fields are received, each with the boundary that it is sent with. -/
theorem fixedRecord_received {rs es : List Datum} (length : rs.length = es.length) (some : es ≠ [])
    (next : ∀ pair ∈ (rs.zip es).tail, pair.1.methods.getOctetBoundary =
      pair.2.methods.getOctetBoundary ∧ pair.2.methods.getOctetBoundary ≠ .ok 0)
    (each : ∀ pair ∈ rs.zip es, Received pair.1 pair.2) :
    Received (.HLAfixedRecord rs) (.HLAfixedRecord es) := by
  obtain ⟨octets, ds, encoded, same, decodes⟩ := decodeAfter_received each 0 next
  rw [map_zip_right length] at encoded same
  rw [map_zip_left length] at decodes
  refine ⟨octets, .HLAfixedRecord ds, ?_, ?_, Yields.map Datum.HLAfixedRecord ?_⟩
  · change HLAfixedRecord.encodeInto (Element.allMethods (allElements es)) = _
    rw [allMethods_allElements, HLAfixedRecord.encodeInto,
      if_neg (by rwa [List.map_eq_nil_iff])]
    exact encoded
  · change Contents.HLAfixedRecord (allContents ds) = Contents.HLAfixedRecord (allContents es)
    rw [allContents_eq, allContents_eq, same]
  · have there : rs ≠ [] := by
      rintro rfl
      exact some (List.length_eq_zero_iff.mp length.symm)
    rw [receivers_eq, HLAfixedRecord.decodeFrom, if_neg (by rwa [List.map_eq_nil_iff])]
    exact decodes

end Datum

namespace Basic

/-- What the constructor without arguments makes of the class. -/
def fresh : Basic → Basic
  | HLAASCIIchar _ => .HLAASCIIchar 0
  | HLAASCIIstring _ => .HLAASCIIstring []
  | HLAboolean _ => .HLAboolean false
  | HLAbyte _ => .HLAbyte 0
  | HLAfloat32BE _ => .HLAfloat32BE 0
  | HLAfloat32LE _ => .HLAfloat32LE 0
  | HLAfloat64BE _ => .HLAfloat64BE 0
  | HLAfloat64LE _ => .HLAfloat64LE 0
  | HLAinteger16LE _ => .HLAinteger16LE 0
  | HLAinteger16BE _ => .HLAinteger16BE 0
  | HLAinteger32LE _ => .HLAinteger32LE 0
  | HLAinteger32BE _ => .HLAinteger32BE 0
  | HLAinteger64LE _ => .HLAinteger64LE 0
  | HLAinteger64BE _ => .HLAinteger64BE 0
  | HLAoctet _ => .HLAoctet 0
  | HLAoctetPairLE .. => .HLAoctetPairLE 0 0
  | HLAoctetPairBE .. => .HLAoctetPairBE 0 0
  | HLAunicodeChar _ => .HLAunicodeChar 0
  | HLAunicodeString _ => .HLAunicodeString []

/-- The classes of fixed size. -/
def sized : Basic → Bool
  | HLAASCIIstring _ | HLAunicodeString _ => false
  | _ => true

/-- The classes that decode as many octets as they encode. -/
def scalar : Basic → Bool
  | HLAboolean _ | HLAASCIIstring _ | HLAunicodeString _ => false
  | _ => true

/-- The values that are not cut when they are encoded. -/
def Sound : Basic → Prop
  | HLAASCIIchar data => 0 ≤ data.toInt
  | HLAunicodeChar data => data.toNat < 2 ^ 16
  | b => b.scalar

def SameClass (b b' : Basic) : Prop := b.fresh = b'.fresh

theorem sized_of_scalar {b : Basic} (one : b.scalar) : b.sized := by
  cases b <;> first | rfl | exact one

theorem Sound.sized {b : Basic} (sound : b.Sound) : b.sized := by
  cases b <;> first | rfl | exact sound

theorem sized_fresh (b : Basic) : b.fresh.sized = b.sized := by
  cases b <;> rfl

theorem getEncodedLength_fresh {b : Basic} (fixed : b.sized) :
    b.fresh.getEncodedLength = b.getEncodedLength := by
  cases b <;> first | rfl | cases fixed

theorem decodeUnchecked_fresh {b : Basic} (fixed : b.sized) :
    b.fresh.decodeUnchecked = b.decodeUnchecked := by
  cases b <;> first | rfl | cases fixed

theorem SameClass.sized {b b' : Basic} (same : SameClass b b') : b.sized = b'.sized := by
  rw [← sized_fresh b, same, sized_fresh]

theorem getEncodedLength_congr {held b : Basic} (same : SameClass held b) (fixed : b.sized) :
    held.getEncodedLength = b.getEncodedLength := by
  rw [← getEncodedLength_fresh (same.sized.trans fixed), same, getEncodedLength_fresh fixed]

/-- What the object held before is of no effect. -/
theorem decodeUnchecked_congr {held b : Basic} (same : SameClass held b) (fixed : b.sized) :
    held.decodeUnchecked = b.decodeUnchecked := by
  rw [← decodeUnchecked_fresh (same.sized.trans fixed), same, decodeUnchecked_fresh fixed]

/-- A class whose values are words. -/
theorem yields_word (o : Order) (w : Nat) {n : Nat} (whole : n = 8 * (w + 1)) (f : BitVec n → Basic)
    (data : BitVec n) :
    ∃ octets, encode o (w + 1) data = .ok (written octets) ∧ octets ≠ [] ∧
      Yields (do return f (← decode o (w + 1) n)) octets (f data) := by
  refine ⟨layout o (w + 1) data, rfl, ?_, (yields_decode o whole data).map f⟩
  rw [← List.length_pos_iff, length_layout]
  omega

theorem yields_unchecked {b : Basic} (sound : b.Sound) :
    ∃ octets, b.encodeInto = .ok (written octets) ∧ octets ≠ [] ∧
      Yields b.decodeUnchecked octets b := by
  cases b with
  | HLAASCIIchar data =>
    have ascii : ¬data.toInt < 0 := not_lt.mpr sound
    refine ⟨[data], ?_, by simp, (yields_octet data).map HLAASCIIchar⟩
    rw [encodeInto, HLAASCIIchar.encodeInto, if_neg ascii]
    rfl
  | HLAASCIIstring | HLAboolean | HLAunicodeString => cases sound
  | HLAbyte data => exact ⟨[data], rfl, by simp, (yields_octet data).map HLAbyte⟩
  | HLAoctet data => exact ⟨[data], rfl, by simp, (yields_octet data).map HLAoctet⟩
  | HLAoctetPairLE first second =>
    exact ⟨[first, second], rfl, by simp,
      (yields_octet first).bind ((yields_octet second).map (HLAoctetPairLE first))⟩
  | HLAoctetPairBE first second =>
    exact ⟨[second, first], rfl, by simp, (yields_octet second).bind
      ((yields_octet first).map fun first => HLAoctetPairBE first second)⟩
  | HLAunicodeChar data =>
    have whole : (data.setWidth 16).setWidth 32 = data := by
      apply BitVec.eq_of_toNat_eq
      change data.toNat < 2 ^ 16 at sound
      simp only [BitVec.toNat_setWidth]
      omega
    have read := ((yields_decode .big (w := 2) rfl (data.setWidth 16)).map
      (·.setWidth 32)).map HLAunicodeChar
    rw [whole] at read
    exact ⟨_, rfl, by simp [layout, digits], read⟩
  | HLAfloat32BE data => exact yields_word .big 3 rfl HLAfloat32BE data
  | HLAfloat32LE data => exact yields_word .little 3 rfl HLAfloat32LE data
  | HLAfloat64BE data => exact yields_word .big 7 rfl HLAfloat64BE data
  | HLAfloat64LE data => exact yields_word .little 7 rfl HLAfloat64LE data
  | HLAinteger16LE data => exact yields_word .little 1 rfl HLAinteger16LE data
  | HLAinteger16BE data => exact yields_word .big 1 rfl HLAinteger16BE data
  | HLAinteger32LE data => exact yields_word .little 3 rfl HLAinteger32LE data
  | HLAinteger32BE data => exact yields_word .big 3 rfl HLAinteger32BE data
  | HLAinteger64LE data => exact yields_word .little 7 rfl HLAinteger64LE data
  | HLAinteger64BE data => exact yields_word .big 7 rfl HLAinteger64BE data

end Basic

namespace Datum

theorem basic_received {held b : Basic} (same : held.SameClass b) (sound : b.Sound) :
    Received (.basic held) (.basic b) := by
  obtain ⟨octets, encoded, some, yields⟩ := Basic.yields_unchecked sound
  rw [← Basic.decodeUnchecked_congr same sound.sized] at yields
  exact ⟨octets, .basic b, encoded, rfl, (yields_checked some yields).map Datum.basic⟩

/-- The receiver is of the classes of the sender's element, has elements or prototypes where they
are needed, and pads as the sender does. -/
inductive Receives : Datum → Datum → Prop where
  | basic {held b : Basic} (same : held.SameClass b) (sound : b.Sound) :
    Receives (.basic held) (.basic b)
  | HLAfixedArray {p q : Datum} {rs es : List Datum} (length : rs.length = es.length)
    (some : es ≠ [])
    (agreed : 1 < es.length → paddingOfFirst (rs.map methods) = paddingOfFirst (es.map methods))
    (each : ∀ pair ∈ rs.zip es, Receives pair.1 pair.2) :
    Receives (.HLAfixedArray p rs) (.HLAfixedArray q es)
  | HLAvariableArray {p q : Datum} {es : List Datum} (small : es.length < 2 ^ 31)
    (count : p.methods.getOctetBoundary.map HlaArray.calculPaddingAfterNbElements =
      q.methods.getOctetBoundary.map HlaArray.calculPaddingAfterNbElements)
    (agreed : 1 < es.length → paddingOfFirst [p.methods] = paddingOfFirst (es.map methods))
    (each : ∀ e ∈ es, Receives p e) :
    Receives (.HLAvariableArray p []) (.HLAvariableArray q es)
  | HLAfixedRecord {rs es : List Datum} (length : rs.length = es.length) (some : es ≠ [])
    (next : ∀ pair ∈ (rs.zip es).tail, pair.1.methods.getOctetBoundary =
      pair.2.methods.getOctetBoundary ∧ pair.2.methods.getOctetBoundary ≠ .ok 0)
    (each : ∀ pair ∈ rs.zip es, Receives pair.1 pair.2) :
    Receives (.HLAfixedRecord rs) (.HLAfixedRecord es)

theorem Receives.received {r e : Datum} (receives : Receives r e) : Received r e := by
  induction receives with
  | basic same sound => exact basic_received same sound
  | HLAfixedArray length some agreed _ each => exact fixedArray_received length some agreed each
  | HLAvariableArray small count agreed _ each =>
    exact variableArray_received small count agreed each
  | HLAfixedRecord length some next _ each => exact fixedRecord_received length some next each

def integers (values : List (BitVec 32)) : Datum :=
  .HLAvariableArray (.basic (.HLAinteger32BE 0)) (values.map fun v => .basic (.HLAinteger32BE v))

theorem integers_received (values : List (BitVec 32)) (small : values.length < 2 ^ 31) :
    Receives (integers []) (integers values) := by
  refine .HLAvariableArray (by simpa using small) rfl ?_ ?_
  · intro several
    match values with
    | [] => simp at several
    | _ :: _ => rfl
  · intro e inside
    obtain ⟨v, _, rfl⟩ := List.mem_map.mp inside
    exact .basic rfl rfl

end Datum

/-! ## Types of fixed size -/

namespace Contents

theorem total_eq (l : List Contents) : total l = (l.map encodedLength).sum := by
  induction l with
  | nil => rfl
  | cons c rest ih => rw [total, ih, List.map_cons, List.sum_cons]

theorem largest_eq (l : List Contents) : largest l = (l.map octetBoundary).foldr max 0 := by
  induction l with
  | nil => rfl
  | cons c rest ih => rw [largest, ih, List.map_cons, List.foldr_cons]

end Contents

namespace Datum

/-- Elements of one type in which no size varies; the basic elements of the second are `good`. -/
inductive Alike (good : Basic → Prop) : Datum → Datum → Prop where
  | basic {held b : Basic} (same : held.SameClass b) (one : b.scalar) (sound : good b) :
    Alike good (.basic held) (.basic b)
  | HLAfixedArray {p q : Datum} {rs es : List Datum} (length : rs.length = es.length)
    (some : es ≠ []) (each : ∀ pair ∈ rs.zip es, Alike good pair.1 pair.2) :
    Alike good (.HLAfixedArray p rs) (.HLAfixedArray q es)
  | HLAfixedRecord {rs es : List Datum} (length : rs.length = es.length) (some : es ≠ [])
    (each : ∀ pair ∈ rs.zip es, Alike good pair.1 pair.2) :
    Alike good (.HLAfixedRecord rs) (.HLAfixedRecord es)

/-- As large and as aligned, and at least by one octet. -/
structure Measures (r e : Datum) : Prop where
  length : r.contents.encodedLength = e.contents.encodedLength
  boundary : r.contents.octetBoundary = e.contents.octetBoundary
  positive : 0 < e.contents.octetBoundary

theorem total_congr {rs es : List Datum} (length : rs.length = es.length)
    (each : ∀ pair ∈ rs.zip es, pair.1.contents.encodedLength = pair.2.contents.encodedLength) :
    Contents.total (allContents rs) = Contents.total (allContents es) := by
  have lengths : rs.map (fun r => r.contents.encodedLength) =
      es.map fun e => e.contents.encodedLength := by
    rw [← map_zip_left length, ← map_zip_right length]
    exact List.map_congr_left each
  rw [Contents.total_eq, Contents.total_eq, allContents_eq, allContents_eq, List.map_map,
    List.map_map]
  exact congrArg List.sum lengths

theorem largest_congr {rs es : List Datum} (length : rs.length = es.length)
    (each : ∀ pair ∈ rs.zip es, pair.1.contents.octetBoundary = pair.2.contents.octetBoundary) :
    Contents.largest (allContents rs) = Contents.largest (allContents es) := by
  have boundaries : rs.map (fun r => r.contents.octetBoundary) =
      es.map fun e => e.contents.octetBoundary := by
    rw [← map_zip_left length, ← map_zip_right length]
    exact List.map_congr_left each
  rw [Contents.largest_eq, Contents.largest_eq, allContents_eq, allContents_eq, List.map_map,
    List.map_map]
  exact congrArg (List.foldr max 0) boundaries

theorem measures_elements {rs es : List Datum} (length : rs.length = es.length) (some : es ≠ [])
    (each : ∀ pair ∈ rs.zip es, Measures pair.1 pair.2) :
    Contents.total (allContents rs) = Contents.total (allContents es) ∧
      Contents.largest (allContents rs) = Contents.largest (allContents es) ∧
      0 < Contents.largest (allContents es) := by
  refine ⟨total_congr length fun pair inside => (each pair inside).length,
    largest_congr length fun pair inside => (each pair inside).boundary, ?_⟩
  obtain ⟨e, es', rfl⟩ := List.exists_cons_of_ne_nil some
  obtain ⟨r, rs', rfl⟩ := List.exists_cons_of_length_eq_add_one length
  have first := (each (r, e) List.mem_cons_self).positive
  rw [allContents, Contents.largest]
  exact lt_max_of_lt_left first

theorem Alike.measures {good : Basic → Prop} {r e : Datum} (alike : Alike good r e) :
    Measures r e := by
  induction alike with
  | @basic held b same one _ =>
    have length : held.getEncodedLength = b.getEncodedLength :=
      Basic.getEncodedLength_congr same (Basic.sized_of_scalar one)
    refine ⟨length, length, ?_⟩
    change 0 < b.getEncodedLength
    cases b <;> first | exact Nat.succ_pos _ | cases one
  | HLAfixedArray length some _ each | HLAfixedRecord length some _ each =>
    obtain ⟨lengths, boundaries, positive⟩ := measures_elements length some each
    exact ⟨lengths, boundaries, positive⟩

theorem Measures.padding {r e : Datum} (measures : Measures r e) (rs es : List Methods) :
    paddingOfFirst (r.methods :: rs) = paddingOfFirst (e.methods :: es) := by
  rw [paddingOfFirst, paddingOfFirst, getEncodedLength_eq, getEncodedLength_eq,
    getOctetBoundary_eq, getOctetBoundary_eq, measures.length, measures.boundary]

theorem Measures.field {r e : Datum} (measures : Measures r e) :
    r.methods.getOctetBoundary = e.methods.getOctetBoundary ∧
      e.methods.getOctetBoundary ≠ .ok 0 := by
  rw [getOctetBoundary_eq, getOctetBoundary_eq, measures.boundary]
  refine ⟨rfl, fun zero => ?_⟩
  have positive := measures.positive
  have none := Except.ok.inj zero
  omega

/-- Whatever the receiver held before. -/
theorem Alike.receives {r e : Datum} (alike : Alike Basic.Sound r e) : Receives r e := by
  induction alike with
  | basic same _ sound => exact .basic same sound
  | @HLAfixedArray p q rs es length some alike each =>
    refine .HLAfixedArray length some (fun _ => ?_) each
    obtain ⟨e, es', rfl⟩ := List.exists_cons_of_ne_nil some
    obtain ⟨r, rs', rfl⟩ := List.exists_cons_of_length_eq_add_one length
    exact (alike (r, e) List.mem_cons_self).measures.padding _ _
  | HLAfixedRecord length some alike each =>
    refine .HLAfixedRecord length some (fun pair inside => ?_) each
    exact (alike pair (List.mem_of_mem_tail inside)).measures.field

/-- Receivers by their type alone: the sizes that vary are those of one variable array, which is
the first that is decoded. -/
inductive Fits : Datum → Datum → Prop where
  | fixed {r e : Datum} (alike : Alike Basic.Sound r e) : Fits r e
  | HLAvariableArray {p q : Datum} {es : List Datum} (small : es.length < 2 ^ 31)
    (prototypes : Alike (fun _ => True) p q) (each : ∀ e ∈ es, Alike Basic.Sound p e) :
    Fits (.HLAvariableArray p []) (.HLAvariableArray q es)
  | HLAfixedRecord {r e : Datum} {rs es : List Datum} (first : Fits r e)
    (length : rs.length = es.length)
    (rest : ∀ pair ∈ rs.zip es, Alike Basic.Sound pair.1 pair.2) :
    Fits (.HLAfixedRecord (r :: rs)) (.HLAfixedRecord (e :: es))

theorem Fits.receives {r e : Datum} (fits : Fits r e) : Receives r e := by
  induction fits with
  | fixed alike => exact alike.receives
  | @HLAvariableArray p q es small prototypes each =>
    refine .HLAvariableArray small ?_ (fun several => ?_) fun e inside => (each e inside).receives
    · rw [prototypes.measures.field.1]
    · obtain ⟨e, es', rfl⟩ := List.exists_cons_of_length_pos (Nat.zero_lt_of_lt several)
      exact (each e List.mem_cons_self).measures.padding _ _
  | HLAfixedRecord first length rest receives =>
    refine .HLAfixedRecord (by simpa using length) (by simp) ?_ ?_
    · intro pair inside
      exact (rest pair inside).measures.field
    · intro pair inside
      rcases List.mem_cons.mp inside with rfl | inside
      · exact receives
      · exact (rest pair inside).receives

/-- Empty strings and arrays, and what is made of these. -/
inductive Hollow : Datum → Prop where
  | HLAASCIIstring : Hollow (.basic (.HLAASCIIstring []))
  | HLAunicodeString : Hollow (.basic (.HLAunicodeString []))
  | HLAfixedArray {p : Datum} {elements : List Datum} (each : ∀ e ∈ elements, Hollow e) :
    Hollow (.HLAfixedArray p elements)
  | HLAvariableArray {p : Datum} {elements : List Datum} (each : ∀ e ∈ elements, Hollow e) :
    Hollow (.HLAvariableArray p elements)
  | HLAfixedRecord {elements : List Datum} (each : ∀ e ∈ elements, Hollow e) :
    Hollow (.HLAfixedRecord elements)

theorem largest_zero {elements : List Datum}
    (each : ∀ e ∈ elements, e.contents.octetBoundary = 0) :
    Contents.largest (allContents elements) = 0 := by
  induction elements with
  | nil => rfl
  | cons e rest ih =>
    have head := each e List.mem_cons_self
    have tail := ih fun e' inside => each e' (List.mem_cons_of_mem _ inside)
    rw [allContents, Contents.largest, head, tail]
    rfl

theorem Hollow.getOctetBoundary {e : Datum} (hollow : Hollow e) :
    e.methods.getOctetBoundary = .ok 0 := by
  rw [getOctetBoundary_eq]
  congr 1
  induction hollow with
  | HLAASCIIstring | HLAunicodeString => rfl
  | HLAfixedArray _ zero | HLAvariableArray _ zero | HLAfixedRecord _ zero =>
    exact largest_zero zero

theorem encodeFrom_unfilled {l : List Methods} {e field : Methods} (inside : field ∈ l)
    (unfilled : field.getOctetBoundary = .ok 0) (a_offset : Nat) (octets : List Content) :
    HLAfixedRecord.encodeFrom a_offset (e :: l) ≠ .ok octets := by
  induction l generalizing e a_offset octets with
  | nil => cases inside
  | cons next rest ih =>
    intro done
    rw [HLAfixedRecord.encodeFrom] at done
    obtain ⟨own, _, done⟩ := bind_success done
    obtain ⟨sizeElement, _, done⟩ := bind_success done
    obtain ⟨V, asked, done⟩ := bind_success done
    by_cases zero : V = 0
    · rw [if_pos zero] at done
      cases done
    · rw [if_neg zero] at done
      rcases List.mem_cons.mp inside with rfl | inside
      · rw [unfilled] at asked
        exact zero (Except.ok.inj asked).symm
      · obtain ⟨others, rest, _⟩ := bind_success done
        exact ih inside _ _ rest

theorem decodeAfter_unfilled {l : List (Receiver Datum)} {r field : Receiver Datum}
    (inside : field ∈ l) (unfilled : field.methods.getOctetBoundary = .ok 0)
    (getEncodedLength : Datum → Except Stop Nat) (a_offset : Nat) (buffer : List Octet)
    (index : Nat) (result : List Datum × Nat) :
    HLAfixedRecord.decodeAfter getEncodedLength a_offset (r :: l) buffer index ≠ .ok result := by
  induction l generalizing r a_offset index result with
  | nil => cases inside
  | cons next rest ih =>
    intro done
    obtain ⟨element, _, _, done⟩ := bind_ok done
    obtain ⟨sizeElement, _, _, done⟩ := bind_ok done
    obtain ⟨V, _, asked, done⟩ := bind_ok done
    by_cases zero : V = 0
    · rw [if_pos zero] at done
      cases done
    · rw [if_neg zero] at done
      rcases List.mem_cons.mp inside with rfl | inside
      · rw [unfilled] at asked
        cases asked
        exact zero rfl
      · obtain ⟨_, _, _, done⟩ := bind_ok done
        obtain ⟨_, _, rest, _⟩ := bind_ok done
        exact ih inside _ _ _ rest

/-- A record in which a field behind the first is empty is neither encoded nor decoded, whatever
the other fields are and whatever is in the buffer. -/
theorem record_with_hollow {elements : List Datum} {field : Datum} (inside : field ∈ elements.tail)
    (hollow : Hollow field) :
    (∀ octets, (Datum.HLAfixedRecord elements).element.encodeInto ≠ .ok octets) ∧
      ∀ buffer index result,
        (Datum.HLAfixedRecord elements).decodeFrom buffer index ≠ .ok result := by
  have unfilled := hollow.getOctetBoundary
  cases elements with
  | nil => cases inside
  | cons r rest =>
    refine ⟨fun octets done => ?_, fun buffer index result done => ?_⟩
    · change HLAfixedRecord.encodeInto (Element.allMethods (allElements (r :: rest))) = _ at done
      rw [allMethods_allElements, HLAfixedRecord.encodeInto, List.map_cons,
        if_neg (List.cons_ne_nil _ _)] at done
      exact encodeFrom_unfilled (List.mem_map_of_mem inside) unfilled _ _ done
    · obtain ⟨_, _, fields, _⟩ := bind_ok done
      rw [receivers_eq, List.map_cons, HLAfixedRecord.decodeFrom, if_neg (List.cons_ne_nil _ _)]
        at fields
      exact decodeAfter_unfilled (List.mem_map_of_mem inside) unfilled _ _ _ _ _ fields

theorem record_with_empty_string :
    (∀ octets, (Datum.HLAfixedRecord [.basic (.HLAoctet 1),
      .basic (.HLAASCIIstring [])]).element.encodeInto ≠ .ok octets) ∧
      ∀ buffer index result, (Datum.HLAfixedRecord [.basic (.HLAoctet 1),
        .basic (.HLAASCIIstring [])]).decodeFrom buffer index ≠ .ok result :=
  record_with_hollow List.mem_cons_self .HLAASCIIstring

end Datum

/-! ## The classes that stop too early -/

section Characters

variable {α : Type} {prototype : Receiver α} {own : Methods} {encodes : α → Methods}
  {size : Nat} {data : List α}

theorem length_le_separated {P : Nat} {l : List Methods} {octets : List Content}
    (each : ∀ e ∈ l, ∃ own, e.encodeInto = .ok own ∧ own ≠ [])
    (encoded : separated P l = .ok octets) : l.length ≤ octets.length := by
  induction l generalizing octets with
  | nil => exact Nat.zero_le _
  | cons e rest ih =>
    obtain ⟨own, ofFirst, some⟩ := each e List.mem_cons_self
    have positive := List.length_pos_iff.mpr some
    cases rest with
    | nil =>
      rw [separated, ofFirst] at encoded
      cases encoded
      exact positive
    | cons next rest =>
      rw [separated] at encoded
      · obtain ⟨octets', again, encoded⟩ := bind_success encoded
        rw [ofFirst] at again
        cases again
        obtain ⟨others, ofRest, encoded⟩ := bind_success encoded
        have more := ih (fun e' inside => each e' (List.mem_cons_of_mem _ inside)) ofRest
        cases encoded
        simp only [List.length_cons, List.length_append] at more ⊢
        omega
      · exact List.cons_ne_nil _ _

theorem length_le_encodeInto {l : List Methods} {octets : List Content}
    (each : ∀ e ∈ l, ∃ own, e.encodeInto = .ok own ∧ own ≠ [])
    (encoded : HLAvariableArray.encodeInto own l = .ok octets) : l.length + 4 ≤ octets.length := by
  rw [HLAvariableArray.encodeInto] at encoded
  by_cases big : 2 ^ 31 ≤ l.length
  · rw [if_pos big] at encoded
    cases encoded
  · rw [if_neg big] at encoded
    obtain ⟨_, _, encoded⟩ := bind_success encoded
    obtain ⟨P, _, encoded⟩ := bind_success encoded
    obtain ⟨elements, ofElements, encoded⟩ := bind_success encoded
    have several := length_le_separated each ofElements
    cases encoded
    simp only [List.length_append, List.length_map, length_layout]
    omega

/-- Arrays of characters: what they are encoded into, and how much that is at least. -/
theorem characters_carried (small : data.length < 2 ^ 31)
    (sizes : ∀ m ∈ prototype.methods :: own :: data.map encodes,
      m.getEncodedLength = .ok size ∧ m.getOctetBoundary = .ok size)
    (each : ∀ a ∈ data, ∃ octets, octets ≠ [] ∧ (encodes a).encodeInto = .ok (written octets) ∧
      Yields prototype.decodeFrom octets a) :
    ∃ octets, HLAvariableArray.encodeInto own (data.map encodes) = .ok (written octets) ∧
      data.length + 4 ≤ octets.length ∧
      Yields (HLAvariableArray.decodeFrom prototype []) octets data := by
  have sizeOf := sizes prototype.methods List.mem_cons_self
  have boundary := (sizes own (List.mem_cons_of_mem _ List.mem_cons_self)).2
  let sent := data.map fun a => (⟨encodes a, a⟩ : Sent α)
  have length : sent.length = data.length := List.length_map _
  have methods : sent.map Sent.methods = data.map encodes := by
    rw [List.map_map]
    rfl
  have shown : sent.map Sent.shown = data := by
    rw [List.map_map]
    exact List.map_id data
  obtain ⟨P, put, expected⟩ : ∃ P, paddingOfFirst (data.map encodes) = .ok P ∧
      paddingOfFirst (List.replicate data.length prototype.methods) = .ok P := by
    cases data with
    | nil => exact ⟨0, rfl, rfl⟩
    | cons a rest =>
      have first := sizes (encodes a) (by simp)
      refine ⟨HlaArray.calculPaddingAfterEachElements size size, ?_, ?_⟩
      · rw [List.map_cons, paddingOfFirst, first.1, first.2]
        rfl
      · rw [List.length_cons, List.replicate_succ, paddingOfFirst, sizeOf.1, sizeOf.2]
        rfl
  have every : ∀ s ∈ sent, Carries id prototype s := by
    intro s inside
    obtain ⟨a, there, rfl⟩ := List.mem_map.mp inside
    obtain ⟨octets, _, encoded, yields⟩ := each a there
    exact ⟨octets, a, encoded, rfl, yields⟩
  rw [← length] at small expected
  rw [← methods] at put
  obtain ⟨octets, as, encoded, same, decodes⟩ :=
    HLAvariableArray.carries small boundary sizeOf.2 rfl put expected (fun _ => rfl) every
  rw [List.map_id, shown] at same
  rw [methods] at encoded
  subst same
  refine ⟨octets, encoded, ?_, decodes⟩
  have long := length_le_encodeInto (fun e inside => ?_) encoded
  · simpa [written] using long
  · obtain ⟨a, there, rfl⟩ := List.mem_map.mp inside
    obtain ⟨own, some, encodedOwn, _⟩ := each a there
    exact ⟨written own, encodedOwn, by simpa [written] using some⟩

theorem decodeString_read {octets before after : List Octet} (old : List α)
    (yields : Yields (HLAvariableArray.decodeFrom prototype []) octets data) :
    decodeString prototype old (before ++ octets ++ after) before.length =
      .ok (old ++ data, before.length + (old ++ data).length) := by
  change (HLAvariableArray.decodeFrom prototype [] _ _ >>= fun x => _) = _
  rw [yields before after]
  rfl

end Characters

theorem HLAboolean.read (data : Bool) (before after : List Octet) :
    HLAboolean.decodeFrom (before ++ layout .big 4 (BitVec.ofNat 32 data.toNat) ++ after)
      before.length = .ok (data, before.length + 1) := by
  have word := yields_checked (by simp [layout, digits])
    (yields_decode .big (w := 4) (n := 32) rfl (BitVec.ofNat 32 data.toNat))
  have back : decide (BitVec.ofNat 32 data.toNat ≠ 0) = data := by
    cases data <;> decide
  change (checked (decode .big 4 32) _ _ >>= fun x => _) = _
  rw [word before after]
  exact congrArg (fun b => Except.ok (b, before.length + 1)) back

theorem HLAopaqueData.read {octets data before after : List Octet}
    (yields : Yields (HLAvariableArray.decodeFrom HLAbyte.receiver []) octets data) :
    HLAopaqueData.decodeFrom data.length (before ++ octets ++ after) before.length =
      .ok (data, before.length) := by
  change (HLAvariableArray.decodeFrom HLAbyte.receiver [] _ _ >>= fun x => _) = _
  rw [yields before after]
  change (if data.length ≠ data.length then _ else _ : Decoder (List Octet)) _ _ = _
  rw [if_neg (not_not_intro rfl)]
  rfl

theorem HLAASCIIchar.read {data : List Octet} (small : data.length < 2 ^ 31)
    (ascii : ∀ character ∈ data, 0 ≤ character.toInt) :
    ∃ octets, HLAASCIIstring.encodeInto data = .ok (written octets) ∧
      data.length + 4 ≤ octets.length ∧
      Yields (HLAvariableArray.decodeFrom HLAASCIIchar.receiver []) octets data := by
  refine @characters_carried _ _ _ _ 1 _ small ?_ ?_
  · intro m inside
    simp only [List.mem_cons, List.mem_map] at inside
    rcases inside with rfl | rfl | ⟨c, _, rfl⟩ <;> exact ⟨rfl, rfl⟩
  · intro c inside
    refine ⟨[c], List.cons_ne_nil _ _, ?_, yields_checked (List.cons_ne_nil _ _) (yields_octet c)⟩
    change HLAASCIIchar.encodeInto c = _
    rw [HLAASCIIchar.encodeInto, if_neg (not_lt.mpr (ascii c inside))]
    rfl

/-- An ASCII character survives that it is cut to a `char` and to a half of a word. -/
theorem narrowed {c : BitVec 32} (ascii : c.toNat < 2 ^ 7) :
    ((c.setWidth 8).signExtend 32).setWidth 16 = c.setWidth 16 ∧
      (c.setWidth 16).setWidth 32 = c := by
  have positive : (c.setWidth 8).msb = false := by
    rw [BitVec.msb_eq_false_iff_two_mul_lt, BitVec.toNat_setWidth]
    omega
  rw [BitVec.signExtend_eq_setWidth_of_msb_false positive]
  constructor
  · apply BitVec.eq_of_toNat_eq
    simp only [BitVec.toNat_setWidth]
    omega
  · apply BitVec.eq_of_toNat_eq
    simp only [BitVec.toNat_setWidth]
    omega

theorem HLAunicodeChar.read {data : List (BitVec 32)} (small : data.length < 2 ^ 31)
    (ascii : ∀ character ∈ data, character.toNat < 2 ^ 7) :
    ∃ octets, HLAunicodeString.encodeInto data = .ok (written octets) ∧
      data.length + 4 ≤ octets.length ∧
      Yields (HLAvariableArray.decodeFrom HLAunicodeChar.receiver []) octets data := by
  refine @characters_carried _ _ _ _ 2 _ small ?_ ?_
  · intro m inside
    simp only [List.mem_cons, List.mem_map] at inside
    rcases inside with rfl | rfl | ⟨c, _, rfl⟩ <;> exact ⟨rfl, rfl⟩
  · intro c inside
    obtain ⟨cut, back⟩ := narrowed (ascii c inside)
    have read := (yields_decode .big (w := 2) rfl (c.setWidth 16)).map (·.setWidth 32)
    rw [back] at read
    have some : layout .big 2 (c.setWidth 16) ≠ [] := by simp [layout, digits]
    refine ⟨_, some, ?_, yields_checked some read⟩
    change encode .big 2 (((c.setWidth 8).signExtend 32).setWidth 16) = _
    rw [cut]
    rfl

theorem HLAbyte.read {data : List Octet} (small : data.length < 2 ^ 31) :
    ∃ octets, HLAopaqueData.encodeInto (written data) = .ok (written octets) ∧
      data.length + 4 ≤ octets.length ∧
      Yields (HLAvariableArray.decodeFrom HLAbyte.receiver []) octets data := by
  rw [HLAopaqueData.encodeInto, written, List.map_map]
  refine @characters_carried _ _ _ _ 1 _ small ?_ ?_
  · intro m inside
    simp only [List.mem_cons, List.mem_map] at inside
    rcases inside with rfl | rfl | ⟨c, _, rfl⟩ <;> exact ⟨rfl, rfl⟩
  · intro c _
    exact ⟨[c], List.cons_ne_nil _ _, rfl,
      yields_checked (List.cons_ne_nil _ _) (yields_octet c)⟩

namespace Datum

theorem basic_read {b b' : Basic} {octets before after : List Octet} {index : Nat}
    (some : octets ≠ []) (done : b.decodeUnchecked (before ++ octets ++ after) before.length =
      .ok (b', index)) :
    (Datum.basic b).decodeFrom (before ++ octets ++ after) before.length =
      .ok (.basic b', index) := by
  have inside : checked b.decodeUnchecked (before ++ octets ++ after) before.length =
      .ok (b', index) := by rwa [checked_inside some]
  exact return_ok Datum.basic inside

/-- The characters that a string holds. -/
def characters : Datum → Nat
  | .basic (.HLAASCIIstring data) => data.length
  | .basic (.HLAunicodeString data) => data.length
  | _ => 0

/-- What `r` becomes by decoding what `e` was encoded into, and how far the index moves, for the
classes that do not stop behind the octets. -/
inductive Short : Datum → Datum → Datum → Nat → Prop where
  | HLAboolean (old data : Bool) :
    Short (.basic (.HLAboolean old)) (.basic (.HLAboolean data)) (.basic (.HLAboolean data)) 1
  | HLAASCIIstring (old data : List Octet) (small : data.length < 2 ^ 31)
    (ascii : ∀ character ∈ data, 0 ≤ character.toInt) :
    Short (.basic (.HLAASCIIstring old)) (.basic (.HLAASCIIstring data))
      (.basic (.HLAASCIIstring (old ++ data))) (old.length + data.length)
  | HLAunicodeString (old data : List (BitVec 32)) (small : data.length < 2 ^ 31)
    (ascii : ∀ character ∈ data, character.toNat < 2 ^ 7) :
    Short (.basic (.HLAunicodeString old)) (.basic (.HLAunicodeString data))
      (.basic (.HLAunicodeString (old ++ data))) (old.length + data.length)
  | HLAopaqueData (held : List Content) (data : List Octet) (bufferSize bufferSize' : Nat)
    (small : data.length < 2 ^ 31) (same : held.length = data.length) :
    Short (.HLAopaqueData held bufferSize) (.HLAopaqueData (written data) bufferSize')
      (.HLAopaqueData (written data) bufferSize) 0

/-- Booleans, strings and opaque data take over what was encoded, strings behind what they held;
but the index then is at least three octets before the end of what was encoded, less the
characters that the string held. -/
theorem decode_short {r e d : Datum} {moved : Nat} (short : Short r e d moved) :
    ∃ octets, e.element.encodeInto = .ok (written octets) ∧
      moved + 3 ≤ octets.length + r.characters ∧
      ∀ before after, r.decodeFrom (before ++ octets ++ after) before.length =
        .ok (d, before.length + moved) := by
  cases short with
  | HLAboolean old data =>
    refine ⟨_, rfl, ?_, fun before after => ?_⟩
    · rw [length_layout]
      exact Nat.le_add_right _ _
    · exact basic_read (by simp [layout, digits])
        (return_ok Basic.HLAboolean (HLAboolean.read data before after))
  | HLAASCIIstring old data small ascii =>
    obtain ⟨octets, encoded, long, yields⟩ := HLAASCIIchar.read small ascii
    have some : octets ≠ [] := List.ne_nil_of_length_pos (by omega)
    refine ⟨octets, encoded, ?_, fun before after => ?_⟩
    · change old.length + data.length + 3 ≤ octets.length + old.length
      omega
    · rw [← List.length_append]
      exact basic_read some (return_ok Basic.HLAASCIIstring (decodeString_read old yields))
  | HLAunicodeString old data small ascii =>
    obtain ⟨octets, encoded, long, yields⟩ := HLAunicodeChar.read small ascii
    have some : octets ≠ [] := List.ne_nil_of_length_pos (by omega)
    refine ⟨octets, encoded, ?_, fun before after => ?_⟩
    · change old.length + data.length + 3 ≤ octets.length + old.length
      omega
    · rw [← List.length_append]
      exact basic_read some (return_ok Basic.HLAunicodeString (decodeString_read old yields))
  | HLAopaqueData held data bufferSize bufferSize' small same =>
    obtain ⟨octets, encoded, long, yields⟩ := HLAbyte.read small
    refine ⟨octets, encoded, by omega, fun before after => ?_⟩
    have read := @HLAopaqueData.read octets data before after yields
    rw [← same] at read
    exact return_ok (fun octets => Datum.HLAopaqueData (written octets) bufferSize) read

theorem decode_short_string : ∃ octets,
    (Datum.basic (.HLAASCIIstring [66, 67])).element.encodeInto = .ok (written octets) ∧
      1 + 2 + 3 ≤ octets.length + 1 ∧
      ∀ before after, (Datum.basic (.HLAASCIIstring [65])).decodeFrom
        (before ++ octets ++ after) before.length =
          .ok (.basic (.HLAASCIIstring [65, 66, 67]), before.length + (1 + 2)) :=
  decode_short (.HLAASCIIstring [65] [66, 67] (by decide) (by decide))

end Datum

end Certi.Encoding
