import Certi.LibHLA.Frames

/-!
# Messages across hosts

What a writer puts into a buffer of its own byte order, or of one it assumes, a
reader of either byte order gets back. Both buffers must have been created with
some capacity: on an allocation of no bytes the test for room wraps around.
-/
namespace Certi.MessageBuffer

open Bytes Throwing

/-! ## Reading back -/

/-- One typed read of an item that comes next. -/
theorem read_written {host : Host} {item : Item} {rest : List Byte} {b : MessageBuffer}
    (fit : Fit b) (ahead : b.readOffset.toNat ≤ b.writeOffset.toNat)
    (next : b.unread = wire (order host b) item ++ rest) (small : item.size < 2 ^ 31) :
    read host item.request b = .ok item (b.advance item.size) := by
  have inside : b.readOffset.toNat + item.size ≤ b.writeOffset.toNat := by
    have length := fit.length_unread
    rw [next, List.length_append, length_wire] at length
    omega
  cases item with
  | scalars t data =>
    simp only [Item.size] at inside small
    have wide : 0 < t.width := by cases t <;> simp [Scalar.width]
    have fewer : data.length ≤ t.width * data.length := Nat.le_mul_of_pos_left _ wide
    have count : (BitVec.ofNat 32 data.length).toNat = data.length := toNat_ofNat (by omega)
    obtain ⟨found, off, done, -, same⟩ :=
      readScalars_ok (t := t) (n := BitVec.ofNat 32 data.length) host fit
        (by rw [count]; exact inside)
    have back : found = data := same data rest count.symm next
    rw [count] at done
    rw [Item.request, read, bind_ok done, pure_apply, back, Item.size]
  | bool toggle =>
    obtain ⟨x, done, same⟩ := retval_ok (read_uint8s_ok (n := 1) host fit inside)
    have back : x = if toggle then 1 else 0 := by
      apply same _ rest
      rw [next, wire]
      cases order host b <;> cases toggle <;> simp [layout, digits]
    have flag : (1 == x) = toggle := by
      rw [back]
      cases toggle <;> simp
    have whole : read_bool b = .ok toggle (b.advance 1) := by
      rw [read_bool, read_uint8, bind_ok done, pure_apply, flag]
    rw [Item.request, read, bind_ok whole, pure_apply, Item.size]
  | string str =>
    simp only [Item.size] at inside small
    have count : (BitVec.ofNat 32 str.length).toNat = str.length := toNat_ofNat (by omega)
    have positive : 0 ≤ (BitVec.ofNat 32 str.length).toInt := by
      rw [BitVec.toInt_eq_toNat_of_lt (by rw [count]; omega)]
      omega
    rw [wire, List.append_assoc] at next
    obtain ⟨len, done, same⟩ := retval_ok (read_uint32s_ok (n := 1) host fit
      (Nat.le_trans (Nat.add_le_add_left (by simp) _) inside))
    have length : len = BitVec.ofNat 32 str.length := same _ _ next
    rw [length] at done
    have whole := read_string_ok fit done positive (by rw [count]; omega)
    have chars : (b.unread.drop 4).take str.length = str := by
      rw [next, List.drop_left' (length_layout _ 4 _), List.take_left]
    rw [count, chars] at whole
    rw [Item.request, read, bind_ok whole, pure_apply, Item.size]

def totalSize (items : List Item) : Nat := (items.map Item.size).sum

theorem length_flatMap_wire (o : Order) (items : List Item) :
    (items.flatMap (wire o)).length = totalSize items := by
  simp [totalSize, List.length_flatMap]

theorem readAll_written {host : Host} {items : List Item} {b : MessageBuffer} (fit : Fit b)
    (ahead : b.readOffset.toNat ≤ b.writeOffset.toNat)
    (next : b.unread = items.flatMap (wire (order host b))) (small : totalSize items < 2 ^ 31) :
    readAll host (items.map Item.request) b = .ok items (b.advance (totalSize items)) := by
  induction items generalizing b with
  | nil => simp [readAll, totalSize, advance]
  | cons item rest ih =>
    rw [List.flatMap_cons] at next
    rw [totalSize, List.map_cons, List.sum_cons] at small
    have inside : b.readOffset.toNat + item.size ≤ b.writeOffset.toNat := by
      have length := fit.length_unread
      rw [next, List.length_append, length_wire] at length
      omega
    have first := read_written fit ahead next (by omega)
    have others := ih (b := b.advance item.size) (fit.advance item.size)
      (by rw [readOffset_advance inside, advance_writeOffset]; omega)
      (by rw [unread_advance inside, next, List.drop_left' (length_wire _ _), order_advance])
      (by rw [totalSize]; omega)
    rw [List.map_cons, readAll, bind_ok first, bind_ok others, pure_apply, advance_advance]
    simp [totalSize]

/-! ## Writing, sending, receiving, reading -/

def assume (host : Host) : Option Order → Access Unit
  | none => pure ()
  | some o => assumeOrder host o

/-- The `size()` bytes a writer hands over. -/
def transmit (host : Host) (assumed : Option Order) (items : List Item) : Access (List Byte) := do
  reset host
  assume host assumed
  writeAll host items
  updateReservedBytes host
  copyFrom 0 (← size)

/-- The items written on one host into a buffer created with `wcap` bytes are read on the
other from one created with `rcap` bytes, and nothing is left unread. -/
def RoundTrips (writer reader : Host) (assumed : Option Order) (wcap rcap : UInt32T)
    (items : List Item) : Prop :=
  ∃ w w' r r' r'' bytes more,
    create writer wcap = .ok () w ∧ transmit writer assumed items w = .ok bytes w' ∧
    create reader rcap = .ok () r ∧ receive reader bytes r = .ok more r' ∧
    readAll reader (items.map Item.request) r' = .ok items r'' ∧
    r''.readOffset = r''.writeOffset

theorem assume_ok {b : MessageBuffer} (host : Host) (assumed : Option Order) (fit : Fit b)
    (room : 5 < b.bufferMaxSize.toNat) (mine : b.bufferHasMyEndianness = true) :
    ∃ memory mine, assume host assumed b =
        .ok () { b with buffer := memory, bufferHasMyEndianness := mine } ∧
      (if mine then host.order else host.order.flip) = assumed.getD host.order ∧
      memory.length = b.buffer.length := by
  cases assumed with
  | none =>
    refine ⟨b.buffer, true, ?_, by simp, rfl⟩
    rw [assume, pure_apply, ← mine]
  | some o =>
    obtain ⟨memory, kept, assumed, told, length, -⟩ :=
      assumeOrder_ok (o := o) host fit.sized (by omega)
    exact ⟨memory, kept, assumed, told, length⟩

/-- What is handed over: the reserved bytes, then the items in the assumed byte order. -/
theorem transmit_ok {items : List Item} {b : MessageBuffer} (host : Host) (assumed : Option Order)
    (fit : Fit b) (room : 5 < b.bufferMaxSize.toNat) (small : totalSize items < 2 ^ 31) :
    ∃ b', transmit host assumed items b =
      .ok (header (assumed.getD host.order) (BitVec.ofNat 32 (5 + totalSize items)) ++
        items.flatMap (wire (assumed.getD host.order))) b' := by
  obtain ⟨memory, cleared, length⟩ := reset_ok host fit room
  have fit₁ : Fit { b with
      buffer := memory
      bufferHasMyEndianness := true
      writeOffset := reservedBytes
      readOffset := reservedBytes } := by
    constructor
    · exact length.trans fit.sized
    · exact Nat.le_of_lt room
  obtain ⟨memory₁, mine, assumes, told, length₁⟩ :=
    assume_ok host assumed fit₁ room rfl
  generalize chosen : assumed.getD host.order = o at *
  have fit₂ : Fit { b with
      buffer := memory₁
      bufferHasMyEndianness := mine
      writeOffset := reservedBytes
      readOffset := reservedBytes } := by
    constructor
    · exact length₁.trans fit₁.sized
    · exact fit₁.inside
  have five : BitVec.toNat reservedBytes = 5 := by simp [reservedBytes]
  obtain ⟨c, wrote, appended⟩ := writeAll_ok host items fit₂ room
    (by simp only [five]; rw [← totalSize]; omega)
  have ordered : order host c = o := by
    rw [order, appended.endianness]
    exact told
  have started : order host { b with
      buffer := memory₁
      bufferHasMyEndianness := mine
      writeOffset := reservedBytes
      readOffset := reservedBytes } = o := told
  rw [started] at appended
  have offset : c.writeOffset.toNat = 5 + totalSize items := by
    rw [appended.offset, length_flatMap_wire]
    simp only [five]
  obtain ⟨memory₂, updated, length₂, front, behind⟩ :=
    updateReservedBytes_ok host appended.fit (Nat.lt_of_lt_of_le room appended.grown)
  have fit₃ : Fit { c with buffer := memory₂ } := by
    constructor
    · exact length₂.trans appended.fit.sized
    · exact appended.fit.inside
  have sent : BitVec.ofNat 32 (5 + totalSize items) = c.writeOffset := by
    rw [← offset, BitVec.ofNat_toNat, BitVec.setWidth_eq]
  have payload : c.contents.drop 5 = items.flatMap (wire o) := by
    rw [appended.contents]
    apply List.drop_left'
    rw [fit₂.length_contents]
    exact five
  have whole : memory₂.take c.writeOffset.toNat =
      header o (BitVec.ofNat 32 (5 + totalSize items)) ++ items.flatMap (wire o) := by
    rw [sent, ← ordered, ← front, ordered, ← payload, contents, List.drop_take, ← behind, offset,
      ← List.take_add]
    congr 1
    omega
  refine ⟨{ c with buffer := memory₂ }, ?_⟩
  rw [transmit, bind_ok cleared, bind_ok assumes, bind_ok wrote, bind_ok updated, size, bind_assoc,
    get_bind, pure_bind, copyFrom_ok fit₃ (by simpa using appended.fit.inside), ← whole]
  simp

theorem created_of_trip {writer reader : Host} {assumed : Option Order} {wcap rcap : UInt32T}
    {items : List Item} (trip : RoundTrips writer reader assumed wcap rcap items) :
    wcap ≠ 0 ∧ rcap ≠ 0 := by
  obtain ⟨w, w', r, r', r'', bytes, more, wrote, -, read, -⟩ := trip
  constructor
  · intro zero
    rw [zero, create_zero] at wrote
    cases wrote
  · intro zero
    rw [zero, create_zero] at read
    cases read

/-- Every sequence of typed writes is read back on every other host, whatever byte order
was assumed, if and only if both buffers were created with some capacity. -/
theorem trips_iff_capacities (writer reader : Host) (assumed : Option Order) (wcap rcap : UInt32T)
    (items : List Item) (small : totalSize items < 2 ^ 31) :
    RoundTrips writer reader assumed wcap rcap items ↔ wcap ≠ 0 ∧ rcap ≠ 0 := by
  constructor
  · exact created_of_trip
  rintro ⟨wsome, rsome⟩
  obtain ⟨w, wrote, wfit, wroom⟩ := create_ok writer wsome
  obtain ⟨r, made, rfit, rroom⟩ := create_ok reader rsome
  obtain ⟨w', sent⟩ := transmit_ok writer assumed wfit wroom small
  generalize assumed.getD writer.order = o at sent
  have declared : (declaredSize (header o (BitVec.ofNat 32 (5 + totalSize items)))).toNat =
      5 + (items.flatMap (wire o)).length := by
    rw [header_declared, length_flatMap_wire, toNat_ofNat (by omega)]
  obtain ⟨r', got, fit, ordered, written, reading, payload⟩ :=
    receive_ok reader [] rfit rroom (length_header o _) declared
  rw [List.append_nil] at got
  rw [header_told] at ordered
  have ahead : r'.readOffset.toNat + totalSize items = r'.writeOffset.toNat := by
    rw [reading, written, declared, length_flatMap_wire]
    simp
  have read := readAll_written fit (by omega) (by rw [ordered]; exact payload) small
  refine ⟨w, w', r, r', r'.advance (totalSize items), _, [], wrote, sent, made, got, read, ?_⟩
  apply BitVec.eq_of_toNat_eq
  rw [readOffset_advance (by omega), advance_writeOffset, ahead]

/-- A string and a swapped 64-bit array, from a big-endian host through a buffer of one byte
to a little-endian host. -/
theorem trips_iff_capacities_strings :
    totalSize [.string [0x61, 0x62], .scalars .int64 [1, 2], .bool true] < 2 ^ 31 ∧
      RoundTrips ⟨true, fun _ => 0xff⟩ ⟨false, fun _ => 0xee⟩ (some .little) 1 255
        [.string [0x61, 0x62], .scalars .int64 [1, 2], .bool true] := by
  have small : totalSize [.string [0x61, 0x62], .scalars .int64 [1, 2], .bool true] < 2 ^ 31 := by
    decide
  exact ⟨small, (trips_iff_capacities _ _ _ _ _ _ small).mpr ⟨by decide, by decide⟩⟩

/-- A buffer created with no capacity is written outside of its allocation at once. -/
theorem empty_capacity_fails :
    ¬ ∀ (writer reader : Host) (assumed : Option Order) (wcap rcap : UInt32T) (items : List Item),
      totalSize items < 2 ^ 31 → RoundTrips writer reader assumed wcap rcap items := by
  intro trips
  have trip := trips ⟨false, fun _ => 0⟩ ⟨false, fun _ => 0⟩ none 0 255 [] (by decide)
  exact (created_of_trip trip).1 (by decide)

end Certi.MessageBuffer
