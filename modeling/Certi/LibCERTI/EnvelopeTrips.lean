import Certi.LibCERTI.Envelope

/-!
# Envelopes across hosts

Serializing is writing a sequence of items (`Writes`); deserializing that
sequence makes of the object that is there a known other one (`Reads`). What the
object keeps of the message it held before is then a matter of looking.
-/
namespace Certi.Envelope

open Bytes MessageBuffer Throwing

/-! ## Calls of the buffer -/

variable {α β : Type} {host : Host}

theorem embed_ok {access : Access α} {a : α} {b b' : MessageBuffer}
    (done : access b = .ok a b') : embed access b = .ok a b' := by
  rw [embed, done]

@[simp] theorem embed_pure (a : α) : embed (pure a) = pure a := by
  funext b
  simp [embed]

theorem embed_bind (access : Access α) (f : α → Access β) :
    embed (access >>= f) = embed access >>= fun a => embed (f a) := by
  funext b
  simp only [embed, bind, EStateM.bind]
  cases access b <;> simp

/-! ## Writing -/

theorem writeAll_append (host : Host) (xs ys : List Item) :
    writeAll host (xs ++ ys) = (writeAll host xs >>= fun _ => writeAll host ys) := by
  induction xs with
  | nil => simp [writeAll]
  | cons item rest ih => simp only [List.cons_append, writeAll, ih, bind_assoc]

/-- Running `p` is writing `items`. -/
def Writes (host : Host) (p : Passing Unit) (items : List Item) : Prop :=
  p = embed (writeAll host items)

theorem Writes.nothing : Writes host (pure ()) [] := by
  simp [Writes, writeAll]

theorem Writes.item (item : Item) : Writes host (emit (write host item)) [item] := by
  simp only [Writes, writeAll, emit, discard, Functor.discard]
  funext b
  simp only [embed, Functor.mapConst, Function.comp, EStateM.map, Function.const,
    bind, EStateM.bind]
  cases write host item b <;> simp

theorem Writes.seq {p q : Passing Unit} {xs ys : List Item} (first : Writes host p xs)
    (second : Writes host q ys) :
    Writes host (do
      p
      q) (xs ++ ys) := by
  rw [Writes, writeAll_append, embed_bind, ← first, ← second]

theorem Writes.forM {f : α → Passing Unit} {items : α → List Item} {as : List α}
    (each : ∀ a ∈ as, Writes host (f a) (items a)) :
    Writes host (as.forM f) (as.flatMap items) := by
  induction as with
  | nil => exact Writes.nothing
  | cons a rest ih =>
    have head := each a List.mem_cons_self
    have others := ih fun x member => each x (List.mem_cons_of_mem _ member)
    rw [List.flatMap_cons]
    exact head.seq others

/-! ## Reading -/

/-- Where `items` come next, `p` consumes them and returns `a`. -/
def Reads (host : Host) (p : Passing α) (items : List Item) (a : α) : Prop :=
  ∀ b rest, Fit b → b.readOffset.toNat ≤ b.writeOffset.toNat →
    b.unread = items.flatMap (wire (order host b)) ++ rest → totalSize items < 2 ^ 31 →
    p b = .ok a (b.advance (totalSize items))

theorem totalSize_append (xs ys : List Item) :
    totalSize (xs ++ ys) = totalSize xs + totalSize ys := by
  simp [totalSize]

theorem Reads.nothing (a : α) : Reads host (pure a) [] a := by
  intro b rest fit ahead next small
  simp [totalSize, advance]

theorem Reads.bind {p : Passing α} {f : α → Passing β} {xs ys : List Item} {a : α} {c : β}
    (first : Reads host p xs a) (second : Reads host (f a) ys c) :
    Reads host (p >>= f) (xs ++ ys) c := by
  intro b rest fit ahead next small
  rw [totalSize_append] at small
  rw [List.flatMap_append, List.append_assoc] at next
  have inside : b.readOffset.toNat + totalSize xs ≤ b.writeOffset.toNat := by
    have length := fit.length_unread
    rw [next, List.length_append, length_flatMap_wire] at length
    omega
  have done := first b _ fit ahead next (by omega)
  have later := second (b.advance (totalSize xs)) rest (fit.advance _)
    (by rw [readOffset_advance inside, advance_writeOffset]; exact inside)
    (by rw [unread_advance inside, next, List.drop_left' (length_flatMap_wire _ _), order_advance])
    (by omega)
  rw [bind_ok done, later, advance_advance, totalSize_append]

/-- A last step that reads nothing. -/
theorem Reads.map {p : Passing α} {items : List Item} {a : α} (f : α → β)
    (reads : Reads host p items a) : Reads host (p >>= fun a => pure (f a)) items (f a) := by
  have both := reads.bind (f := fun a => pure (f a)) (Reads.nothing (f a))
  rwa [List.append_nil] at both

theorem Reads.access {access : Access α} {item : Item} {f : α → Item} {a : α}
    (single : ∀ x, f x = f a → x = a)
    (reads : read host item.request = do return f (← access)) (same : item = f a) :
    Reads host (embed access) [item] a := by
  intro b rest fit ahead next small
  have alone : b.unread = wire (order host b) item ++ rest := by simpa using next
  have done := read_written fit ahead alone
    (by simpa [totalSize] using small)
  rw [reads] at done
  cases found : access b with
  | ok x b' =>
    rw [bind_ok found, pure_apply] at done
    injection done with value state
    rw [embed_ok found, single x (value.trans same), state]
    simp [totalSize]
  | error e b' =>
    rw [bind_error found] at done
    cases done

theorem Reads.scalar {t : Scalar} (x : BitVec t.bits) :
    Reads host (embed (retval (readScalars host t 1))) [.scalars t [x]] x := by
  intro b rest fit ahead next small
  simp only [List.flatMap_cons, List.flatMap_nil, List.append_nil, wire] at next
  have inside : b.readOffset.toNat + t.width * BitVec.toNat (1 : UInt32T) ≤
      b.writeOffset.toNat := by
    have length := fit.length_unread
    rw [next, List.length_append, length_layout] at length
    simp
    omega
  obtain ⟨y, done, same⟩ := retval_ok (readScalars_ok (t := t) (n := 1) host fit inside)
  rw [embed_ok done, same x rest next]
  simp [totalSize, Item.size]

theorem Reads.bool (toggle : Bool) : Reads host (embed read_bool) [.bool toggle] toggle := by
  apply Reads.access (f := Item.bool) _ rfl rfl
  intro x same
  simpa using same

theorem Reads.string (str : List Byte) :
    Reads host (embed (read_string host)) [.string str] str := by
  apply Reads.access (f := Item.string) _ rfl rfl
  intro x same
  simpa using same

theorem Reads.repeated {body : Passing α} {items : α → List Item} {as : List α}
    (each : ∀ a ∈ as, Reads host body (items a) a) :
    Reads host (BasicMessage.repeated body as.length) (as.flatMap items) as := by
  induction as with
  | nil => exact Reads.nothing []
  | cons a rest ih =>
    have head := each a List.mem_cons_self
    have others := ih fun x member => each x (List.mem_cons_of_mem _ member)
    rw [List.flatMap_cons]
    exact head.bind (others.map (a :: ·))

/-! ## The header -/

/-- The optional parts that a message has. -/
structure OptionalParts where
  date : Option (BitVec 64)
  label : Option (List Byte)
  tag : Option (List Byte)
  deriving DecidableEq, Repr

def BasicMessage.optionalParts (m : BasicMessage) : OptionalParts where
  date := if m.isDated then some m.date else none
  label := if m.isLabelled then some m.label else none
  tag := if m.isTagged then some m.tag else none

def flagged (item : α → Item) (part : Option α) : List Item :=
  .bool part.isSome :: part.toList.map item

def dateItem (date : BitVec 64) : Item := .scalars .double [date]

def OptionalParts.items (o : OptionalParts) : List Item :=
  flagged dateItem o.date ++ (flagged .string o.label ++ flagged .string o.tag)

/-- The object `old` after the optional parts were read into it. -/
def BasicMessage.overlaid (old : BasicMessage) (o : OptionalParts) : BasicMessage :=
  { old with
    isDated := o.date.isSome
    date := o.date.getD old.date
    isLabelled := o.label.isSome
    label := o.label.getD old.label
    isTagged := o.tag.isSome
    tag := o.tag.getD old.tag }

theorem BasicMessage.overlaid_optionalParts (old : BasicMessage) (o : OptionalParts) :
    (old.overlaid o).optionalParts = o := by
  obtain ⟨date, label, tag⟩ := o
  simp only [overlaid, optionalParts]
  cases date <;> cases label <;> cases tag <;> simp

theorem writes_optional (item : α → Item) (flag : Bool) (a : α) :
    Writes host (BasicMessage.serializeOptional host flag (emit (write host (item a))))
      (flagged item (if flag then some a else none)) := by
  cases flag with
  | false => exact (Writes.item (.bool false)).seq Writes.nothing
  | true => exact (Writes.item (.bool true)).seq (Writes.item (item a))

theorem BasicMessage.writes_serialize (m : BasicMessage) :
    Writes host (m.serialize host) m.optionalParts.items := by
  have date : Writes host _ _ := writes_optional dateItem m.isDated m.date
  have label : Writes host _ _ := writes_optional .string m.isLabelled m.label
  have tag : Writes host _ _ := writes_optional .string m.isTagged m.tag
  exact date.seq (label.seq tag)

theorem reads_optional {part : Passing α} (item : α → Item)
    (each : ∀ a, Reads host part [item a] a) (o : Option α) :
    Reads host (BasicMessage.deserializeOptional part) (flagged item o) o := by
  cases o with
  | none => exact (Reads.bool false).bind (Reads.nothing none)
  | some a => exact (Reads.bool true).bind ((each a).map some)

theorem BasicMessage.assigned_overlaid (old : BasicMessage) (o : OptionalParts) :
    ((old.assignDate o.date).assignLabel o.label).assignTag o.tag = old.overlaid o := by
  obtain ⟨date, label, tag⟩ := o
  cases date <;> cases label <;> cases tag <;> rfl

theorem BasicMessage.reads_deserialize (old : BasicMessage) (o : OptionalParts) :
    Reads host (old.deserialize host) o.items (old.overlaid o) := by
  have each (x : BitVec 64) : Reads host (embed (read_double host)) [dateItem x] x :=
    Reads.scalar (t := .double) x
  have date := reads_optional dateItem each o.date
  have label : Reads host _ _ _ := reads_optional .string Reads.string o.label
  have tag : Reads host _ _ _ := reads_optional .string Reads.string o.tag
  rw [← assigned_overlaid]
  exact date.bind (label.bind (tag.map _))

/-! ## Extents and regions -/

def int32Item (x : BitVec 32) : Item := .scalars .int32 [x]

def int64Item (x : BitVec 64) : Item := .scalars .int64 [x]

def rangeItems (item : BitVec 32 → Item) (range : Range) : List Item :=
  [item range.1, item range.2]

def boundItems (item : BitVec 32 → Item) (extents : List Extent) : List Item :=
  extents.flatMap fun e => e.ranges.flatMap (rangeItems item)

/-- What follows the number of the extents, as `count` writes a number and `item` a bound. -/
def countedItems (count : Nat → Item) (item : BitVec 32 → Item) : List Extent → List Item
  | [] => []
  | first :: rest => count first.size :: boundItems item (first :: rest)

def extentItems (count : Nat → Item) (item : BitVec 32 → Item) (extents : List Extent) :
    List Item :=
  count extents.length :: countedItems count item extents

def regionItems (count : Nat → Item) (item : BitVec 32 → Item) (regions : List (BitVec 32)) :
    List Item :=
  count regions.length :: regions.map item

def count32 (n : Nat) : Item := int32Item (BitVec.ofNat 32 n)

def count64 (n : Nat) : Item := int64Item (BitVec.ofNat 64 n)

def widened (x : BitVec 32) : Item := int64Item (x.setWidth 64)

@[simp] theorem size_int32Item (x : BitVec 32) : (int32Item x).size = 4 := rfl

@[simp] theorem size_widened (x : BitVec 32) : (widened x).size = 8 := rfl

theorem Extent.range_behind {e : Extent} {before : List Range} {range : Range}
    {behind : List Range} (split : e.ranges = before ++ range :: behind) :
    e.range (before.length + 1) = pure range := by
  simp [Extent.range, split]

theorem writes_ranges {bound : BitVec 32 → Passing Unit} {item : BitVec 32 → Item}
    (each : ∀ x, Writes host (bound x) [item x]) (e : Extent) :
    Writes host ((List.range' 1 e.size).forM fun h => do
      bound (← e.getRangeLowerBound h)
      bound (← e.getRangeUpperBound h)) (e.ranges.flatMap (rangeItems item)) := by
  have from' (before behind : List Range) (split : e.ranges = before ++ behind) :
      Writes host ((List.range' (before.length + 1) behind.length).forM fun h => do
        bound (← e.getRangeLowerBound h)
        bound (← e.getRangeUpperBound h)) (behind.flatMap (rangeItems item)) := by
    induction behind generalizing before with
    | nil => exact Writes.nothing
    | cons range rest ih =>
      have others := ih (before ++ [range]) (by simp [split])
      rw [List.length_append, List.length_singleton] at others
      have found := Extent.range_behind split
      have both : Writes host (do
          bound (← e.getRangeLowerBound (before.length + 1))
          bound (← e.getRangeUpperBound (before.length + 1))) (rangeItems item range) := by
        simp only [Extent.getRangeLowerBound, Extent.getRangeUpperBound, found, pure_bind]
        exact (each range.1).seq (each range.2)
      exact both.seq others
  exact from' [] e.ranges rfl

theorem writes_bounds {bound : BitVec 32 → Passing Unit} {item : BitVec 32 → Item}
    (each : ∀ x, Writes host (bound x) [item x]) {n : Nat} {extents : List Extent}
    (uniform : ∀ e ∈ extents, e.size = n) :
    Writes host (BasicMessage.writeBounds bound n extents) (boundItems item extents) := by
  apply Writes.forM
  intro e member
  have ranges := writes_ranges each e
  rwa [uniform e member] at ranges

theorem reads_range {bound : Passing (BitVec 32)} {item : BitVec 32 → Item}
    (each : ∀ x, Reads host bound [item x] x) {e : Extent} {before : List Range} {old : Range}
    {behind : List Range} (split : e.ranges = before ++ old :: behind) (range : Range) :
    Reads host (do
      let e ← e.setRangeLowerBound (before.length + 1) (← bound)
      e.setRangeUpperBound (before.length + 1) (← bound)) (rangeItems item range)
      ⟨before ++ range :: behind⟩ := by
  have lower : Extent.setRangeLowerBound e (before.length + 1) range.1 =
      pure ⟨before ++ (range.1, old.2) :: behind⟩ := by
    simp [Extent.setRangeLowerBound, Extent.range_behind split, split]
  have upper : Extent.setRangeUpperBound ⟨before ++ (range.1, old.2) :: behind⟩
      (before.length + 1) range.2 = pure ⟨before ++ range :: behind⟩ := by
    rw [Extent.setRangeUpperBound, Extent.range_behind rfl]
    simp
  have second : Reads host (bound >>= fun x =>
      Extent.setRangeUpperBound ⟨before ++ (range.1, old.2) :: behind⟩ (before.length + 1) x)
      [item range.2] ⟨before ++ range :: behind⟩ := by
    have last : Reads host (Extent.setRangeUpperBound ⟨before ++ (range.1, old.2) :: behind⟩
        (before.length + 1) range.2) [] ⟨before ++ range :: behind⟩ := by
      rw [upper]
      exact Reads.nothing _
    exact (each range.2).bind last
  exact (each range.1).bind (by rw [lower, pure_bind]; exact second)

theorem reads_bounds {bound : Passing (BitVec 32)} {item : BitVec 32 → Item}
    (each : ∀ x, Reads host bound [item x] x) (e : Extent) :
    Reads host (BasicMessage.readBounds bound e.size) (e.ranges.flatMap (rangeItems item)) e := by
  have loop (before behind : List Range) :
      Reads host ((List.range' (before.length + 1) behind.length).foldlM (fun (e : Extent) h => do
        let e ← e.setRangeLowerBound h (← bound)
        e.setRangeUpperBound h (← bound))
        ⟨before ++ List.replicate behind.length Extent.wholeAxis⟩)
        (behind.flatMap (rangeItems item)) ⟨before ++ behind⟩ := by
    induction behind generalizing before with
    | nil => exact Reads.nothing _
    | cons range rest ih =>
      have others := ih (before ++ [range])
      rw [List.length_append, List.length_singleton, List.append_assoc, List.append_assoc] at others
      exact (reads_range each rfl range).bind others
  have all := loop [] e.ranges
  have created : Extent.ofSize e.size = pure ⟨List.replicate e.ranges.length Extent.wholeAxis⟩ := by
    rw [Extent.ofSize, if_neg (Int.not_lt.mpr (Int.natCast_nonneg _)), Int.toNat_natCast,
      Extent.size]
  rw [BasicMessage.readBounds, created, pure_bind]
  exact all

theorem reads_counted {count : Passing Int} {bound : Passing (BitVec 32)} {number : Nat → Item}
    {item : BitVec 32 → Item} (each : ∀ x, Reads host bound [item x] x)
    {extents : List Extent}
    (counts : ∀ e ∈ extents, Reads host count [number e.size] e.size)
    (uniform : ∀ e ∈ extents, ∀ e' ∈ extents, e.size = e'.size) :
    Reads host (BasicMessage.readCounted count bound extents.length)
      (countedItems number item extents) extents := by
  cases extents with
  | nil => exact Reads.nothing []
  | cons first rest =>
    have some : 0 < ((first :: rest).length : Int) := by simp
    have all : Reads host (BasicMessage.repeated (BasicMessage.readBounds bound first.size)
        (first :: rest).length) (boundItems item (first :: rest)) (first :: rest) := by
      apply Reads.repeated
      intro e member
      rw [uniform first List.mem_cons_self e member]
      exact reads_bounds each e
    rw [BasicMessage.readCounted, if_pos some]
    exact (counts first List.mem_cons_self).bind all

/-! ## Numbers that fit -/

theorem toInt_ofNat {w k : Nat} (small : k < 2 ^ 31) (wide : 32 ≤ w) :
    (BitVec.ofNat w k).toInt = k := by
  have power : 2 ^ 32 ≤ 2 ^ w := Nat.pow_le_pow_right (by omega) wide
  have value : (BitVec.ofNat w k).toNat = k := by
    rw [BitVec.toNat_ofNat, Nat.mod_eq_of_lt (by omega)]
  rw [BitVec.toInt_eq_toNat_of_lt (by omega), value]

theorem signExtend_ofNat {k : Nat} (small : k < 2 ^ 31) :
    (BitVec.ofNat 32 k).signExtend 64 = BitVec.ofNat 64 k := by
  apply BitVec.eq_of_toInt_eq
  rw [BitVec.toInt_signExtend_of_le (by omega), toInt_ofNat small (by omega),
    toInt_ofNat small (by omega)]

theorem size_le_boundItems {item : BitVec 32 → Item} (positive : ∀ x, 0 < (item x).size)
    {extents : List Extent} {e : Extent} (member : e ∈ extents) :
    e.size ≤ totalSize (boundItems item extents) := by
  have own (ranges : List Range) :
      ranges.length ≤ totalSize (ranges.flatMap (rangeItems item)) := by
    induction ranges with
    | nil => simp
    | cons range rest ih =>
      have lower := positive range.1
      rw [List.flatMap_cons, totalSize_append, List.length_cons, rangeItems]
      simp only [totalSize, List.map_cons, List.sum_cons] at ih ⊢
      omega
  induction extents with
  | nil => cases member
  | cons first rest ih =>
    rw [boundItems, List.flatMap_cons, totalSize_append, ← boundItems]
    cases member with
    | head => exact Nat.le_add_right_of_le (own e.ranges)
    | tail _ later => exact Nat.le_add_left_of_le (ih later)

theorem length_le_regionItems (count : Nat → Item) {item : BitVec 32 → Item}
    (positive : ∀ x, 0 < (item x).size) (regions : List (BitVec 32)) :
    regions.length ≤ totalSize (regionItems count item regions) := by
  have own : regions.length ≤ totalSize (regions.map item) := by
    induction regions with
    | nil => simp
    | cons region rest ih =>
      have first := positive region
      simp only [totalSize, List.map_cons, List.sum_cons, List.length_cons] at ih ⊢
      omega
  have whole : totalSize (regionItems count item regions) =
      (count regions.length).size + totalSize (regions.map item) := by
    simp [regionItems, totalSize]
  omega

/-- The number of ranges of uniform extents, where the items of the extents fit. -/
theorem size_small {count : Nat → Item} {item : BitVec 32 → Item}
    (positive : ∀ x, 0 < (item x).size) {extents : List Extent}
    (small : totalSize (extentItems count item extents) < 2 ^ 31) {e : Extent}
    (member : e ∈ extents) : e.size < 2 ^ 31 := by
  have below := size_le_boundItems positive member
  cases extents with
  | nil => cases member
  | cons first rest =>
    simp only [extentItems, countedItems, totalSize, List.map_cons, List.sum_cons] at small below
    omega

/-! ## What is written and what is read -/

theorem writes_count32 (n : Nat) :
    Writes host (emit (write_int32 host (BitVec.ofNat 32 n))) [count32 n] :=
  Writes.item (count32 n)

theorem reads_count32 {n : Nat} (small : n < 2 ^ 31) :
    Reads host (BasicMessage.readInt32 host) [count32 n] n := by
  have number : Reads host (embed (read_int32 host)) [count32 n] (BitVec.ofNat 32 n) :=
    Reads.scalar (t := .int32) _
  have value := number.map BitVec.toInt
  rwa [toInt_ofNat small (by omega)] at value

theorem reads_count64 {n : Nat} (small : n < 2 ^ 63) :
    Reads host (BasicMessage.readInt64 host) [count64 n] n := by
  have number : Reads host (embed (read_int64 host)) [count64 n] (BitVec.ofNat 64 n) :=
    Reads.scalar (t := .int64) _
  have value := number.map BitVec.toInt
  have same : (BitVec.ofNat 64 n).toInt = n := by
    have below : (BitVec.ofNat 64 n).toNat = n := by
      rw [BitVec.toNat_ofNat, Nat.mod_eq_of_lt (by omega)]
    rw [BitVec.toInt_eq_toNat_of_lt (by omega), below]
  rwa [same] at value

theorem reads_int32 (x : BitVec 32) : Reads host (embed (read_int32 host)) [int32Item x] x :=
  Reads.scalar (t := .int32) x

theorem reads_widened (x : BitVec 32) :
    Reads host (BasicMessage.readNarrowed host) [widened x] x := by
  have number : Reads host (embed (read_int64 host)) [widened x] (x.setWidth 64) :=
    Reads.scalar (t := .int64) _
  have value := number.map (BitVec.setWidth 32)
  rwa [BitVec.setWidth_setWidth_of_le _ (by omega), BitVec.setWidth_eq] at value

namespace BasicMessage

/-- All extents have as many ranges. -/
def Uniform (m : BasicMessage) : Prop :=
  ∀ e ∈ m.extents, ∀ e' ∈ m.extents, e.size = e'.size

variable {m : BasicMessage}

theorem writes_extents32 (uniform : m.Uniform)
    (small : totalSize (extentItems count32 int32Item m.extents) < 2 ^ 31) :
    Writes host (m.serializeExtents host) (extentItems count32 int32Item m.extents) := by
  have fit := fun e => size_small (e := e) (fun _ => by simp) small
  unfold serializeExtents
  cases same : m.extents with
  | nil => exact (writes_count32 0).seq Writes.nothing
  | cons first rest =>
    have member : first ∈ m.extents := by simp [same]
    have bounds : Writes host (writeBounds (fun bound => emit (write_int32 host bound))
        (BitVec.ofNat 32 first.size).toInt m.extents) (boundItems int32Item m.extents) := by
      rw [toInt_ofNat (fit first member) (by omega)]
      exact writes_bounds (fun x => Writes.item (int32Item x))
        fun e other => uniform e other first member
    rw [same] at bounds
    exact (writes_count32 _).seq ((writes_count32 _).seq bounds)

theorem writes_extents64 (uniform : m.Uniform)
    (small : totalSize (extentItems count64 widened m.extents) < 2 ^ 31) :
    Writes host (m.writeExtents host) (extentItems count64 widened m.extents) := by
  have fit := fun e => size_small (e := e) (fun _ => by simp) small
  unfold writeExtents
  cases same : m.extents with
  | nil => exact (Writes.item (count64 0)).seq Writes.nothing
  | cons first rest =>
    have member : first ∈ m.extents := by simp [same]
    have bounds : Writes host (writeBounds
        (fun bound => emit (write_int64 host (bound.setWidth 64)))
        (BitVec.ofNat 32 first.size).toInt m.extents) (boundItems widened m.extents) := by
      rw [toInt_ofNat (fit first member) (by omega)]
      exact writes_bounds (fun x => Writes.item (widened x))
        fun e other => uniform e other first member
    have number : Writes host
        (emit (write_int64 host ((BitVec.ofNat 32 first.size).signExtend 64)))
        [count64 first.size] := by
      rw [signExtend_ofNat (fit first member)]
      exact Writes.item (count64 first.size)
    rw [same] at bounds
    exact (Writes.item (count64 _)).seq (number.seq bounds)

theorem writes_extent (uniform : m.Uniform)
    (small : totalSize (extentItems count32 int32Item m.extents ++
      regionItems count32 int32Item m.regions) < 2 ^ 31) :
    Writes host (m.serializeExtent host) (extentItems count32 int32Item m.extents ++
      regionItems count32 int32Item m.regions) := by
  rw [totalSize_append] at small
  have few : m.regions.length ≤ totalSize (regionItems count32 int32Item m.regions) :=
    length_le_regionItems count32 (fun _ => by simp) m.regions
  have all : m.regions.take (BitVec.ofNat 32 m.regions.length).toInt.toNat = m.regions := by
    rw [toInt_ofNat (by omega) (by omega), Int.toNat_natCast, List.take_length]
  have regions : Writes host
      ((m.regions.take (BitVec.ofNat 32 m.regions.length).toInt.toNat).forM fun region =>
        emit (write_int32 host region)) (m.regions.map int32Item) := by
    rw [all, List.map_eq_flatMap]
    exact Writes.forM fun region _ => Writes.item (int32Item region)
  exact (writes_extents32 uniform (by omega)).seq ((writes_count32 _).seq regions)

theorem writes_regions (m : BasicMessage) :
    Writes host (m.writeRegions host) (regionItems count64 widened m.regions) := by
  have regions : Writes host
      (m.regions.forM fun region => emit (write_int64 host (region.setWidth 64)))
      (m.regions.map widened) := by
    rw [List.map_eq_flatMap]
    exact Writes.forM fun region _ => Writes.item (widened region)
  exact (Writes.item (count64 _)).seq regions

theorem reads_repeated {item : BitVec 32 → Item} {region : Passing (BitVec 32)}
    (each : ∀ x, Reads host region [item x] x) (regions : List (BitVec 32)) :
    Reads host (repeated region regions.length) (regions.map item) regions := by
  rw [List.map_eq_flatMap]
  exact Reads.repeated fun x _ => each x

theorem reserve_length (n : Nat) : reserve n = pure () := by
  rw [reserve, if_neg (Int.not_lt.mpr (Int.natCast_nonneg _))]

variable {extents : List Extent} {regions : List (BitVec 32)}

theorem reads_extent (old : BasicMessage)
    (uniform : ∀ e ∈ extents, ∀ e' ∈ extents, e.size = e'.size) (few : extents.length < 2 ^ 31)
    (small : totalSize (extentItems count32 int32Item extents ++
      regionItems count32 int32Item regions) < 2 ^ 31) :
    Reads host (old.deserializeExtent host) (extentItems count32 int32Item extents ++
      regionItems count32 int32Item regions)
      { old with
        extents := extents
        regions := regions } := by
  rw [totalSize_append] at small
  have fewer : regions.length ≤ totalSize (regionItems count32 int32Item regions) :=
    length_le_regionItems count32 (fun _ => by simp) regions
  have fit (e : Extent) (member : e ∈ extents) : e.size < 2 ^ 31 :=
    size_small (fun _ => by simp) (Nat.lt_of_le_of_lt (Nat.le_add_right _ _) small) member
  have found : Reads host _ _ extents :=
    reads_counted reads_int32 (fun e member => reads_count32 (fit e member)) uniform
  have last : Reads host _ _ regions := reads_repeated reads_int32 regions
  have number : Reads host (readInt32 host) [count32 regions.length] regions.length :=
    reads_count32 (by omega)
  have behind := last.map fun regions =>
    ({ old with
      extents := extents
      regions := regions } : BasicMessage)
  have front : Reads host (readInt32 host) [count32 extents.length] extents.length :=
    reads_count32 few
  refine front.bind (found.bind (number.bind ?_))
  rw [reserve_length, pure_bind]
  exact behind

theorem reads_extents (old : BasicMessage)
    (uniform : ∀ e ∈ extents, ∀ e' ∈ extents, e.size = e'.size) (few : extents.length < 2 ^ 32)
    (small : totalSize (extentItems count64 widened extents) < 2 ^ 31) :
    Reads host (old.readExtents host) (extentItems count64 widened extents)
      { old with extents := extents } := by
  have fit (e : Extent) (member : e ∈ extents) : e.size < 2 ^ 63 :=
    Nat.lt_trans (size_small (fun _ => by simp) small member) (by decide)
  have found : Reads host _ _ extents :=
    reads_counted reads_widened (fun e member => reads_count64 (fit e member)) uniform
  have front : Reads host (readInt64 host) [count64 extents.length] extents.length :=
    reads_count64 (by omega)
  exact front.bind (found.map fun extents => ({ old with extents := extents } : BasicMessage))

theorem reads_regions (old : BasicMessage)
    (small : totalSize (regionItems count64 widened regions) < 2 ^ 31) :
    Reads host (old.readRegions host) (regionItems count64 widened regions)
      { old with regions := regions } := by
  have fewer : regions.length ≤ totalSize (regionItems count64 widened regions) :=
    length_le_regionItems count64 (fun _ => by simp) regions
  have number : Reads host (readInt64 host) [count64 regions.length] regions.length :=
    reads_count64 (by omega)
  have last : Reads host _ _ regions := reads_repeated reads_widened regions
  apply number.bind
  rw [reserve_length, pure_bind]
  exact last.map fun regions => ({ old with regions := regions } : BasicMessage)

/-- However many extents were announced, an `int32_t` counted them. -/
theorem few_extents {old m : BasicMessage} {b b' : MessageBuffer}
    (read : old.deserializeExtent host b = .ok m b') : m.extents.length < 2 ^ 31 := by
  have length {α : Type} {body : Passing α} {n : Nat} {as : List α} {b b' : MessageBuffer}
      (done : repeated body n b = .ok as b') : as.length = n := by
    induction n generalizing as b with
    | zero => cases done; rfl
    | succ n ih =>
      obtain ⟨a, c, -, later⟩ := bind_returns done
      obtain ⟨rest, d, others, last⟩ := bind_returns later
      cases last
      rw [List.length_cons, ih others]
  obtain ⟨nb, c, number, later⟩ := bind_returns read
  obtain ⟨found, d, counted, later⟩ := bind_returns later
  obtain ⟨n, e, -, later⟩ := bind_returns later
  obtain ⟨⟨⟩, f, -, later⟩ := bind_returns later
  obtain ⟨regions, g, -, last⟩ := bind_returns later
  obtain ⟨x, h, -, value⟩ := bind_returns number
  cases last
  cases value
  have bound := BitVec.toInt_lt (x := x)
  unfold readCounted at counted
  split at counted
  · obtain ⟨dimensions, i, -, all⟩ := bind_returns counted
    rw [length all]
    omega
  · cases counted
    simp

end BasicMessage

/-! ## NetworkMessage -/

namespace NetworkMessage

def ValidType (m : NetworkMessage) : Prop := m.type ≠ NOT_USED ∧ m.type ≠ LAST

def noParts : OptionalParts := ⟨none, none, none⟩

/-- The optional parts that a header has: none where it reports an exception. -/
def headerParts (m : NetworkMessage) : OptionalParts :=
  if m.exception ≠ NO_EXCEPTION then noParts else m.optionalParts

def uint32Item (x : BitVec 32) : Item := .scalars .uint32 [x]

def lastItems (m : NetworkMessage) : List Item :=
  if m.exception ≠ NO_EXCEPTION then [.string m.exceptionReason] else m.optionalParts.items

def items (m : NetworkMessage) : List Item :=
  [int32Item m.type] ++ ([uint32Item m.federate] ++ ([uint32Item m.federation] ++
    ([int32Item (m.exception.setWidth 32)] ++ m.lastItems)))

/-- The object `old` after the header of `sent` was read into it. -/
def headed (old sent : NetworkMessage) : NetworkMessage :=
  { old with
    type := sent.type
    federate := sent.federate
    federation := sent.federation
    exception := sent.exception
    exceptionReason :=
      if sent.exception ≠ NO_EXCEPTION then sent.exceptionReason else old.exceptionReason
    toBasicMessage :=
      if sent.exception ≠ NO_EXCEPTION then old.toBasicMessage
      else old.toBasicMessage.overlaid sent.optionalParts }

theorem writes_serialize {m : NetworkMessage} (valid : m.ValidType) :
    Writes host (m.serialize host) m.items := by
  have last : Writes host (if m.exception ≠ NO_EXCEPTION then
      emit (write_string host m.exceptionReason)
      else m.toBasicMessage.serialize host) m.lastItems := by
    unfold lastItems
    split
    · exact Writes.item (.string m.exceptionReason)
    · exact BasicMessage.writes_serialize m.toBasicMessage
  have passes : ¬(m.type = NOT_USED ∨ m.type = LAST) := by
    rintro (same | same)
    · exact valid.1 same
    · exact valid.2 same
  rw [serialize, if_neg passes]
  exact (Writes.item (int32Item _)).seq ((Writes.item (uint32Item _)).seq
    ((Writes.item (uint32Item _)).seq ((Writes.item (int32Item _)).seq last)))

theorem reads_deserialize (old sent : NetworkMessage) :
    Reads host (old.deserialize host) sent.items (old.headed sent) := by
  have type : Reads host (embed (read_int32 host)) [int32Item sent.type] sent.type :=
    reads_int32 _
  have unsigned (x : BitVec 32) : Reads host (embed (read_uint32 host)) [uint32Item x] x :=
    Reads.scalar (t := .uint32) x
  have exception : Reads host (embed (read_int32 host)) [int32Item (sent.exception.setWidth 32)]
      (sent.exception.setWidth 32) := reads_int32 _
  have back : (sent.exception.setWidth 32).setWidth 8 = sent.exception := by
    rw [BitVec.setWidth_setWidth_of_le _ (by omega), BitVec.setWidth_eq]
  refine type.bind ((unsigned sent.federate).bind ((unsigned sent.federation).bind
    (exception.bind ?_)))
  simp only [back]
  unfold lastItems headed
  split
  · exact (Reads.string sent.exceptionReason).map _
  · exact (BasicMessage.reads_deserialize old.toBasicMessage sent.optionalParts).map _

end NetworkMessage

/-! ## Every format -/

namespace Format

def items (m : NetworkMessage) : Format → List Item
  | .header => m.items
  | .extent => m.items ++ (extentItems count32 int32Item m.extents ++
      regionItems count32 int32Item m.regions)
  | .extents => m.items ++ extentItems count64 widened m.extents
  | .regions => m.items ++ regionItems count64 widened m.regions
  | .extentsRegions => m.items ++ (extentItems count64 widened m.extents ++
      regionItems count64 widened m.regions)

def carriesExtents : Format → Bool
  | .extent | .extents | .extentsRegions => true
  | .header | .regions => false

def carriesRegions : Format → Bool
  | .extent | .regions | .extentsRegions => true
  | .header | .extents => false

/-- The object `old` after `sent` was read into it. -/
def received (old sent : NetworkMessage) : Format → NetworkMessage
  | .header => old.headed sent
  | .extent | .extentsRegions => { old.headed sent with
    extents := sent.extents
    regions := sent.regions }
  | .extents => { old.headed sent with extents := sent.extents }
  | .regions => { old.headed sent with regions := sent.regions }

variable {format : Format} {sent : NetworkMessage}

theorem writes_serialize (valid : sent.ValidType) (uniform : sent.Uniform)
    (small : totalSize (format.items sent) < 2 ^ 31) :
    Writes host (format.serialize host sent) (format.items sent) := by
  have head : Writes host (sent.serialize host) sent.items :=
    NetworkMessage.writes_serialize valid
  cases format with
  | header => exact head
  | extent =>
    rw [items, totalSize_append] at small
    exact head.seq (BasicMessage.writes_extent uniform (by omega))
  | extents =>
    rw [items, totalSize_append] at small
    exact head.seq (BasicMessage.writes_extents64 uniform (by omega))
  | regions => exact head.seq (BasicMessage.writes_regions sent.toBasicMessage)
  | extentsRegions =>
    rw [items, totalSize_append, totalSize_append] at small
    have extents : Writes host _ _ := BasicMessage.writes_extents64 uniform (by omega)
    exact head.seq (extents.seq (BasicMessage.writes_regions sent.toBasicMessage))

theorem reads_deserialize (old : NetworkMessage) (uniform : sent.Uniform)
    (countable : sent.extents.length < 2 ^ 32)
    (few : format = .extent → sent.extents.length < 2 ^ 31)
    (small : totalSize (format.items sent) < 2 ^ 31) :
    Reads host (format.deserialize host old) (format.items sent) (format.received old sent) := by
  have head : Reads host (old.deserialize host) sent.items (old.headed sent) :=
    NetworkMessage.reads_deserialize old sent
  cases format with
  | header => exact head
  | extent =>
    rw [items, totalSize_append] at small
    exact head.bind ((BasicMessage.reads_extent _ uniform (few rfl) (by omega)).map _)
  | extents =>
    rw [items, totalSize_append] at small
    exact head.bind ((BasicMessage.reads_extents _ uniform countable (by omega)).map _)
  | regions =>
    rw [items, totalSize_append] at small
    exact head.bind ((BasicMessage.reads_regions _ (by omega)).map _)
  | extentsRegions =>
    rw [items, totalSize_append, totalSize_append] at small
    have extents : Reads host _ _ _ := BasicMessage.reads_extents
      (old.headed sent).toBasicMessage uniform countable (by omega)
    have regions : Reads host _ (regionItems count64 widened sent.regions) _ :=
      BasicMessage.reads_regions { (old.headed sent).toBasicMessage with
        extents := sent.extents } (by omega)
    exact head.bind (extents.bind (regions.map _))

/-- The same header, and the same of what the format carries. -/
structure Same (format : Format) (sent got : NetworkMessage) : Prop where
  type : got.type = sent.type
  federate : got.federate = sent.federate
  federation : got.federation = sent.federation
  exception : got.exception = sent.exception
  reason : sent.exception ≠ NO_EXCEPTION → got.exceptionReason = sent.exceptionReason
  parts : got.optionalParts = sent.headerParts
  extents : format.carriesExtents = true → got.extents = sent.extents
  regions : format.carriesRegions = true → got.regions = sent.regions

theorem received_optionalParts (old sent : NetworkMessage) (format : Format) :
    (format.received old sent).optionalParts =
      if sent.exception ≠ NO_EXCEPTION then old.optionalParts else sent.optionalParts := by
  have head : (old.headed sent).optionalParts =
      if sent.exception ≠ NO_EXCEPTION then old.optionalParts else sent.optionalParts := by
    unfold NetworkMessage.headed
    split
    · rfl
    · exact BasicMessage.overlaid_optionalParts old.toBasicMessage sent.optionalParts
  cases format <;> exact head

theorem received_same {old : NetworkMessage}
    (cleared : sent.exception ≠ NO_EXCEPTION → old.optionalParts = NetworkMessage.noParts) :
    format.Same sent (format.received old sent) where
  type := by cases format <;> rfl
  federate := by cases format <;> rfl
  federation := by cases format <;> rfl
  exception := by cases format <;> rfl
  reason := by
    intro raised
    cases format <;> exact if_pos raised
  parts := by
    rw [received_optionalParts, NetworkMessage.headerParts]
    split
    · rename_i raised
      exact cleared raised
    · rfl
  extents := by
    cases format <;> intro carried
    case header => cases carried
    case regions => cases carried
    all_goals rfl
  regions := by
    cases format <;> intro carried
    case header => cases carried
    case extents => cases carried
    all_goals rfl

end Format

/-! ## Round trips -/

/-- What is sent on one host through a buffer created with `wcap` bytes is received on the other
through one created with `rcap` bytes, whole and into an object that held `old`. -/
def RoundTrips (writer reader : Host) (wcap rcap : UInt32T) (format : Format)
    (sent old : NetworkMessage) : Prop :=
  ∃ w w' r r' bytes got,
    create writer wcap = .ok () w ∧ send writer format sent w = .ok bytes w' ∧
    create reader rcap = .ok () r ∧ receive reader format old bytes r = .ok (got, []) r' ∧
    r'.readOffset = r'.writeOffset ∧ format.Same sent got

/-- The condition: the buffers have some capacity, the type is one that may be sent, an object
that takes an exception has no optional parts left, and an `int32_t` counts the extents. -/
structure Passes (wcap rcap : UInt32T) (format : Format) (sent old : NetworkMessage) : Prop where
  written : wcap ≠ 0
  received : rcap ≠ 0
  valid : sent.ValidType
  cleared : sent.exception ≠ NO_EXCEPTION → old.optionalParts = NetworkMessage.noParts
  few : format = .extent → sent.extents.length < 2 ^ 31

variable {writer reader : Host} {wcap rcap : UInt32T} {format : Format} {sent old : NetworkMessage}

theorem send_eq (host : Host) (valid : sent.ValidType) (uniform : sent.Uniform)
    (small : totalSize (format.items sent) < 2 ^ 31) :
    send host format sent = embed (transmit host none (format.items sent)) := by
  have written : Writes host _ _ := Format.writes_serialize valid uniform small
  rw [Writes] at written
  simp only [send, written, transmit, MessageBuffer.assume, embed_bind, embed_pure, pure_bind]

theorem send_invalid {b b' : MessageBuffer} {bytes : List Byte}
    (done : send writer format sent b = .ok bytes b') : sent.ValidType := by
  obtain ⟨⟨⟩, c, -, later⟩ := bind_returns done
  obtain ⟨⟨⟩, d, serialized, -⟩ := bind_returns later
  have head : ∃ e, sent.serialize writer c = .ok () e := by
    cases format with
    | header => exact ⟨d, serialized⟩
    | _ =>
      obtain ⟨⟨⟩, e, first, -⟩ := bind_returns serialized
      exact ⟨e, first⟩
  obtain ⟨e, first⟩ := head
  unfold NetworkMessage.serialize at first
  split at first
  · cases first
  · rename_i passes
    exact not_or.mp passes

/-- What the frame of `sent` leaves in the object it is read into. -/
theorem receive_sent {r : MessageBuffer} (o : Order) (old : NetworkMessage) (fit : Fit r)
    (room : 5 < r.bufferMaxSize.toNat) (uniform : sent.Uniform)
    (countable : sent.extents.length < 2 ^ 32)
    (few : format = .extent → sent.extents.length < 2 ^ 31)
    (small : totalSize (format.items sent) < 2 ^ 31) :
    ∃ r', receive reader format old (header o (BitVec.ofNat 32 (5 + totalSize (format.items sent)))
        ++ (format.items sent).flatMap (wire o)) r = .ok (format.received old sent, []) r' ∧
      r'.readOffset = r'.writeOffset := by
  generalize framed : format.items sent = items at small
  have declared : (declaredSize (header o (BitVec.ofNat 32 (5 + totalSize items)))).toNat =
      5 + (items.flatMap (wire o)).length := by
    rw [header_declared, length_flatMap_wire, toNat_ofNat (by omega)]
  obtain ⟨r', got, fit', ordered, written, reading, payload⟩ :=
    receive_ok reader [] fit room (length_header o _) declared
  rw [List.append_nil] at got
  rw [header_told] at ordered
  have ahead : r'.readOffset.toNat + totalSize items = r'.writeOffset.toNat := by
    rw [reading, written, declared, length_flatMap_wire]
    simp
  subst framed
  have reads : Reads reader _ _ _ :=
    Format.reads_deserialize old uniform countable few small
  have read := reads r' [] fit' (by omega) (by rw [ordered, List.append_nil]; exact payload) small
  refine ⟨r'.advance (totalSize (format.items sent)), ?_, ?_⟩
  · rw [receive, bind_ok (embed_ok got), bind_ok read, pure_apply]
  · apply BitVec.eq_of_toNat_eq
    rw [readOffset_advance (by omega), advance_writeOffset, ahead]

theorem few_received {r r' : MessageBuffer} {got : NetworkMessage} {bytes more : List Byte}
    (done : receive reader .extent old bytes r = .ok (got, more) r') :
    got.extents.length < 2 ^ 31 := by
  obtain ⟨rest, b, -, later⟩ := bind_returns done
  obtain ⟨m, c, read, last⟩ := bind_returns later
  cases last
  obtain ⟨head, d, -, later⟩ := bind_returns read
  obtain ⟨basic, e, extents, last⟩ := bind_returns later
  cases last
  exact BasicMessage.few_extents extents

/-- What happens to a message that may be sent, whatever the object it is read into held. -/
theorem trip_received (writer reader : Host) (old : NetworkMessage) (wsome : wcap ≠ 0)
    (rsome : rcap ≠ 0) (valid : sent.ValidType) (uniform : sent.Uniform)
    (countable : sent.extents.length < 2 ^ 32)
    (few : format = .extent → sent.extents.length < 2 ^ 31)
    (small : totalSize (format.items sent) < 2 ^ 31) :
    ∃ w w' r r' bytes, create writer wcap = .ok () w ∧ send writer format sent w = .ok bytes w' ∧
      create reader rcap = .ok () r ∧
      receive reader format old bytes r = .ok (format.received old sent, []) r' ∧
      r'.readOffset = r'.writeOffset := by
  obtain ⟨w, wrote, wfit, wroom⟩ := create_ok writer wsome
  obtain ⟨r, made, rfit, rroom⟩ := create_ok reader rsome
  obtain ⟨w', sending⟩ := transmit_ok writer none wfit wroom small
  obtain ⟨r', receiving, whole⟩ := receive_sent writer.order old rfit rroom uniform countable
    few small
  refine ⟨w, w', r, r', _, wrote, ?_, made, receiving, whole⟩
  rw [send_eq writer valid uniform small]
  exact embed_ok sending

theorem passes_of_trips (trips : RoundTrips writer reader wcap rcap format sent old)
    (uniform : sent.Uniform) (countable : sent.extents.length < 2 ^ 32)
    (small : totalSize (format.items sent) < 2 ^ 31) : Passes wcap rcap format sent old := by
  obtain ⟨w, w', r, r', bytes, got, wrote, sending, made, receiving, -, same⟩ := trips
  have wsome : wcap ≠ 0 := by
    intro zero
    rw [zero, create_zero] at wrote
    cases wrote
  have rsome : rcap ≠ 0 := by
    intro zero
    rw [zero, create_zero] at made
    cases made
  have valid := send_invalid sending
  have few : format = .extent → sent.extents.length < 2 ^ 31 := by
    rintro rfl
    rw [← same.extents rfl]
    exact few_received receiving
  refine ⟨wsome, rsome, valid, fun raised => ?_, few⟩
  -- The object received is the one that `trip_received` tells of: the calls are the same.
  obtain ⟨w₁, w₁', r₁, r₁', bytes₁, wrote₁, sending₁, made₁, receiving₁, -⟩ :=
    trip_received writer reader old wsome rsome valid uniform countable few small
  rw [wrote] at wrote₁
  cases wrote₁
  rw [sending] at sending₁
  cases sending₁
  rw [made] at made₁
  cases made₁
  rw [receiving] at receiving₁
  cases receiving₁
  have parts := same.parts
  rwa [Format.received_optionalParts, if_pos raised, NetworkMessage.headerParts, if_pos raised]
    at parts

/-- A message comes back as it was sent exactly if it passes. -/
theorem roundTrips_iff_passes (writer reader : Host) (wcap rcap : UInt32T) (format : Format)
    (sent old : NetworkMessage) (uniform : sent.Uniform)
    (countable : sent.extents.length < 2 ^ 32) (small : totalSize (format.items sent) < 2 ^ 31) :
    RoundTrips writer reader wcap rcap format sent old ↔ Passes wcap rcap format sent old := by
  constructor
  · intro trips
    exact passes_of_trips trips uniform countable small
  · intro passes
    obtain ⟨w, w', r, r', bytes, wrote, sending, made, receiving, whole⟩ :=
      trip_received writer reader old passes.written passes.received passes.valid uniform
        countable passes.few small
    exact ⟨w, w', r, r', bytes, _, wrote, sending, made, receiving, whole,
      Format.received_same passes.cleared⟩

/-- A dated message with a label, two extents at the ends of the axis, and a region. -/
def rich : NetworkMessage where
  isDated := true
  date := 0x3ff0000000000000
  isTagged := false
  tag := []
  isLabelled := true
  label := [0x61]
  extents := [⟨[(0, 0xffffffff)]⟩, ⟨[(0x80000000, 7)]⟩]
  regions := [0xffffffff]
  type := 6
  federate := 1
  federation := 2
  exception := NO_EXCEPTION
  exceptionReason := []

theorem roundTrips_iff_passes_rich :
    rich.Uniform ∧ rich.extents.length < 2 ^ 32 ∧ totalSize (Format.items rich .extent) < 2 ^ 31 ∧
      RoundTrips ⟨true, fun _ => 0xff⟩ ⟨false, fun _ => 0xee⟩ 255 255 .extent rich rich := by
  have uniform : rich.Uniform := by
    unfold BasicMessage.Uniform
    decide
  have countable : rich.extents.length < 2 ^ 32 := by decide
  have small : totalSize (Format.items rich .extent) < 2 ^ 31 := by decide
  refine ⟨uniform, countable, small,
    (roundTrips_iff_passes _ _ _ _ _ _ _ uniform countable small).mpr ?_⟩
  exact ⟨by decide, by decide, by unfold NetworkMessage.ValidType; decide, by decide, by decide⟩

/-- An answer that reports an exception is read into an object that held a dated message. -/
theorem exception_keeps_date :
    ¬RoundTrips ⟨false, fun _ => 0⟩ ⟨false, fun _ => 0⟩ 255 255 .header
      { rich with
        exception := 1
        isDated := false
        isLabelled := false
        extents := [] } rich := by
  intro trips
  have passes := passes_of_trips trips (by unfold BasicMessage.Uniform; decide) (by decide)
    (by decide)
  exact absurd (passes.cleared (by decide)) (by decide)

end Certi.Envelope
