import Mathlib.Tactic.IntervalCases
import Certi.Lib.Throwing
import Certi.LibHLA.MessageBuffer

/-!
# What the pieces of MessageBuffer do

`Fit` ties the offsets to the allocation. A write into a buffer that fits
appends the bytes of its data in the buffer's byte order (`Appended`); a read of
data that lies before the write offset takes it from the unread bytes.
-/
namespace Certi.MessageBuffer

open Bytes Throwing

/-- The byte order the buffer's data is kept in. -/
def order (host : Host) (b : MessageBuffer) : Order :=
  if b.bufferHasMyEndianness then host.order else host.order.flip

structure Fit (b : MessageBuffer) : Prop where
  sized : b.buffer.length = b.bufferMaxSize.toNat
  inside : b.writeOffset.toNat ≤ b.bufferMaxSize.toNat

/-- What was written, the reserved bytes included. -/
def contents (b : MessageBuffer) : List Byte := b.buffer.take b.writeOffset.toNat

def unread (b : MessageBuffer) : List Byte := b.contents.drop b.readOffset.toNat

theorem Fit.length_contents {b : MessageBuffer} (fit : Fit b) :
    b.contents.length = b.writeOffset.toNat := by
  have inside := fit.inside
  rw [contents, List.length_take, fit.sized]
  omega

theorem Fit.length_unread {b : MessageBuffer} (fit : Fit b) :
    b.unread.length = b.writeOffset.toNat - b.readOffset.toNat := by
  rw [unread, List.length_drop, fit.length_contents]

/-! ## Swapping bytes -/

theorem layout_swap16 (o : Order) (x : BitVec 16) :
    layout o 2 (LIBHLA_UINT16_SWAP_BYTES x) = layout o.flip 2 x := by
  have first : (LIBHLA_UINT16_SWAP_BYTES x).setWidth 8 = (x >>> 8).setWidth 8 := by
    ext i h
    interval_cases i <;> simp [LIBHLA_UINT16_SWAP_BYTES]
  have second : (LIBHLA_UINT16_SWAP_BYTES x >>> 8).setWidth 8 = x.setWidth 8 := by
    ext i h
    interval_cases i <;> simp [LIBHLA_UINT16_SWAP_BYTES]
  cases o <;> simp [layout, Order.flip, digits_toNat, List.range_succ, first, second]

theorem layout_swap32 (o : Order) (x : BitVec 32) :
    layout o 4 (LIBHLA_UINT32_SWAP_BYTES x) = layout o.flip 4 x := by
  have first : (LIBHLA_UINT32_SWAP_BYTES x).setWidth 8 = (x >>> 24).setWidth 8 := by
    ext i h
    interval_cases i <;> simp [LIBHLA_UINT32_SWAP_BYTES]
  have second : (LIBHLA_UINT32_SWAP_BYTES x >>> 8).setWidth 8 = (x >>> 16).setWidth 8 := by
    ext i h
    interval_cases i <;> simp [LIBHLA_UINT32_SWAP_BYTES]
  have third : (LIBHLA_UINT32_SWAP_BYTES x >>> 16).setWidth 8 = (x >>> 8).setWidth 8 := by
    ext i h
    interval_cases i <;> simp [LIBHLA_UINT32_SWAP_BYTES]
  have fourth : (LIBHLA_UINT32_SWAP_BYTES x >>> 24).setWidth 8 = x.setWidth 8 := by
    ext i h
    interval_cases i <;> simp [LIBHLA_UINT32_SWAP_BYTES]
  cases o <;>
    simp [layout, Order.flip, digits_toNat, List.range_succ, first, second, third, fourth]

/-- The halves of a 64-bit word go out in the other order, each swapped. -/
theorem layout_swap64 (host : Host) (x : BitVec 64) :
    layout host.order 4 (LIBHLA_UINT32_SWAP_BYTES (second32 host x)) ++
      layout host.order 4 (LIBHLA_UINT32_SWAP_BYTES (first32 host x)) =
        layout host.order.flip 8 x := by
  rw [layout_swap32, layout_swap32]
  unfold Host.order first32 second32
  cases host.isBigEndian <;> simp [layout, Order.flip, digits_halves x]

theorem ui64_halves (host : Host) (x : BitVec 64) :
    ui64 host (first32 host x) (second32 host x) = x := by
  unfold ui64 first32 second32
  cases host.isBigEndian <;> simp [append_halves]

theorem swap_word16 (o : Order) (x : BitVec 16) :
    LIBHLA_UINT16_SWAP_BYTES (word o 16 (layout o.flip 2 x)) = x := by
  have twice := layout_swap16 o (LIBHLA_UINT16_SWAP_BYTES x)
  rw [layout_swap16 o.flip x, Order.flip_flip] at twice
  have same := congrArg (word o 16) twice
  rwa [word_layout o (by omega), word_layout o (by omega), ← word_layout o (w := 2) (by omega)
    (LIBHLA_UINT16_SWAP_BYTES x), layout_swap16] at same

theorem swap_word32 (o : Order) (x : BitVec 32) :
    LIBHLA_UINT32_SWAP_BYTES (word o 32 (layout o.flip 4 x)) = x := by
  have twice := layout_swap32 o (LIBHLA_UINT32_SWAP_BYTES x)
  rw [layout_swap32 o.flip x, Order.flip_flip] at twice
  have same := congrArg (word o 32) twice
  rwa [word_layout o (by omega), word_layout o (by omega), ← word_layout o (w := 4) (by omega)
    (LIBHLA_UINT32_SWAP_BYTES x), layout_swap32] at same

/-! ## Copying -/

/-- `bytes` were copied to the write offset, into the same allocation. -/
structure Laid (bytes : List Byte) (b b' : MessageBuffer) : Prop where
  length : b'.buffer.length = b.buffer.length
  front : b'.buffer.take b'.writeOffset.toNat = b.contents ++ bytes
  behind : b'.buffer.drop b'.writeOffset.toNat = b.buffer.drop b'.writeOffset.toNat
  offset : b'.writeOffset.toNat = b.writeOffset.toNat + bytes.length
  bufferMaxSize : b'.bufferMaxSize = b.bufferMaxSize
  endianness : b'.bufferHasMyEndianness = b.bufferHasMyEndianness
  readOffset : b'.readOffset = b.readOffset

theorem Laid.nil (b : MessageBuffer) : Laid [] b b := by
  constructor <;> simp [contents]

theorem Laid.trans {first second : List Byte} {b c d : MessageBuffer} (one : Laid first b c)
    (two : Laid second c d) : Laid (first ++ second) b d where
  length := by rw [two.length, one.length]
  front := by rw [two.front, contents, one.front, List.append_assoc]
  behind := by
    have further : d.writeOffset.toNat = c.writeOffset.toNat + second.length := two.offset
    rw [two.behind, further, ← List.drop_drop, one.behind, List.drop_drop]
  offset := by
    rw [two.offset, one.offset, List.length_append]
    omega
  bufferMaxSize := by rw [two.bufferMaxSize, one.bufferMaxSize]
  endianness := by rw [two.endianness, one.endianness]
  readOffset := by rw [two.readOffset, one.readOffset]

theorem Laid.fit {bytes : List Byte} {b b' : MessageBuffer} (laid : Laid bytes b b') (fit : Fit b)
    (inside : b.writeOffset.toNat + bytes.length ≤ b.bufferMaxSize.toNat) : Fit b' where
  sized := by rw [laid.length, laid.bufferMaxSize, fit.sized]
  inside := by rwa [laid.offset, laid.bufferMaxSize]

theorem copyInto_ok {b : MessageBuffer} (off : UInt32T) (bytes : List Byte)
    (sized : b.buffer.length = b.bufferMaxSize.toNat)
    (inside : off.toNat + bytes.length ≤ b.bufferMaxSize.toNat) :
    ∃ memory, copyInto off bytes b = .ok () { b with buffer := memory } ∧
      memory.length = b.buffer.length ∧
      memory.take (off.toNat + bytes.length) = b.buffer.take off.toNat ++ bytes ∧
      memory.drop (off.toNat + bytes.length) = b.buffer.drop (off.toNat + bytes.length) := by
  rw [← sized] at inside
  obtain ⟨memory, stored, length, front, behind⟩ := store_inside inside
  refine ⟨memory, ?_, length, front, behind⟩
  rw [copyInto, stored]

theorem copyFrom_ok {b : MessageBuffer} {off n : UInt32T} (fit : Fit b)
    (inside : off.toNat + n.toNat ≤ b.bufferMaxSize.toNat) :
    copyFrom off n b = .ok ((b.buffer.drop off.toNat).take n.toNat) b := by
  rw [← fit.sized] at inside
  rw [copyFrom, load_inside inside]

theorem put_ok {b : MessageBuffer} (bytes : List Byte) (fit : Fit b)
    (inside : b.writeOffset.toNat + bytes.length ≤ b.bufferMaxSize.toNat) :
    ∃ b', put bytes b = .ok () b' ∧ Laid bytes b b' := by
  obtain ⟨memory, copied, length, front, behind⟩ := copyInto_ok _ _ fit.sized inside
  have bound := b.bufferMaxSize.isLt
  have offset : (b.writeOffset + BitVec.ofNat 32 bytes.length).toNat =
      b.writeOffset.toNat + bytes.length := by
    rw [BitVec.toNat_add, BitVec.toNat_ofNat]
    omega
  refine ⟨{ b with buffer := memory, writeOffset := b.writeOffset + BitVec.ofNat 32 bytes.length },
    ?_, ?_⟩
  · rw [put, get_bind, bind_ok copied, modify_apply]
  · constructor <;> simp only [offset, contents, length, front, behind]

theorem forEach_ok {α : Type} {body : α → Access Unit} {lay : α → List Byte} {w : Nat}
    (size : ∀ x, (lay x).length = w)
    (each : ∀ x b, Fit b → b.writeOffset.toNat + w ≤ b.bufferMaxSize.toNat →
      ∃ b', body x b = .ok () b' ∧ Laid (lay x) b b')
    (data : List α) {b : MessageBuffer} (fit : Fit b)
    (inside : b.writeOffset.toNat + w * data.length ≤ b.bufferMaxSize.toNat) :
    ∃ b', forEach body data.length data b = .ok () b' ∧ Laid (data.flatMap lay) b b' := by
  induction data generalizing b with
  | nil =>
    refine ⟨b, ?_, Laid.nil b⟩
    simp [forEach]
  | cons x rest ih =>
    have split : w * (x :: rest).length = w + w * rest.length := by
      rw [List.length_cons]
      ring
    obtain ⟨c, written, laid⟩ := each x b fit (by omega)
    have offset := laid.offset
    rw [size] at offset
    obtain ⟨d, others, later⟩ := ih (b := c) (laid.fit fit (by rw [size]; omega))
      (by rw [offset, laid.bufferMaxSize]; omega)
    refine ⟨d, ?_, laid.trans later⟩
    rw [List.length_cons, forEach, bind_ok written, others]

/-! ## Making room -/

/-- `b'` is `b` in an allocation with room for `n` more bytes. -/
structure Roomy (n : Nat) (b b' : MessageBuffer) : Prop where
  sized : b'.buffer.length = b'.bufferMaxSize.toNat
  room : b'.writeOffset.toNat + n < b'.bufferMaxSize.toNat
  grown : b.bufferMaxSize.toNat ≤ b'.bufferMaxSize.toNat
  contents : b'.contents = b.contents
  writeOffset : b'.writeOffset = b.writeOffset
  endianness : b'.bufferHasMyEndianness = b.bufferHasMyEndianness
  readOffset : b'.readOffset = b.readOffset
  already : b.writeOffset.toNat + n < b.bufferMaxSize.toNat → b' = b

theorem Roomy.fit {n : Nat} {b b' : MessageBuffer} (roomy : Roomy n b b') : Fit b' where
  sized := roomy.sized
  inside := by
    have room := roomy.room
    omega

theorem reallocate_ok {n : UInt32T} {b : MessageBuffer} (host : Host) (fit : Fit b)
    (larger : b.bufferMaxSize.toNat < n.toNat) :
    ∃ memory, reallocate host n b = .ok () { b with buffer := memory, bufferMaxSize := n } ∧
      memory.length = n.toNat ∧ memory.take b.writeOffset.toNat = b.contents := by
  have inside := fit.inside
  have kept : copyFrom 0 b.writeOffset b = .ok b.contents b := by
    rw [copyFrom_ok fit (by simpa using inside)]
    simp [contents]
  have moved : Fit { b with
      buffer := (List.range n.toNat).map host.fresh
      bufferMaxSize := n } := by
    constructor
    · simp
    · exact Nat.le_trans inside (Nat.le_of_lt larger)
  have long : b.contents.length = b.writeOffset.toNat := fit.length_contents
  obtain ⟨memory, copied, length, front, -⟩ :=
    copyInto_ok 0 b.contents moved.sized (by simpa [long] using moved.inside)
  refine ⟨memory, ?_, by simpa using length, by simpa [long] using front⟩
  have grows : b.bufferMaxSize < n := larger
  rw [reallocate, get_bind, if_pos grows, bind_ok kept, set_bind, copied]

theorem makeRoom_ok {n : UInt32T} {b : MessageBuffer} (host : Host) (fit : Fit b)
    (small : b.writeOffset.toNat + n.toNat + 255 < 2 ^ 32) :
    ∃ b', makeRoom host n b = .ok () b' ∧ Roomy n.toNat b b' := by
  have inside := fit.inside
  have bound := b.bufferMaxSize.isLt
  have left : (b.bufferMaxSize - b.writeOffset).toNat =
      b.bufferMaxSize.toNat - b.writeOffset.toNat := by
    rw [BitVec.toNat_sub]
    omega
  by_cases full : b.bufferMaxSize - b.writeOffset ≤ n
  · have full' : b.bufferMaxSize.toNat - b.writeOffset.toNat ≤ n.toNat := left ▸ full
    have asked : (b.bufferMaxSize + (n - (b.bufferMaxSize - b.writeOffset)) +
        DEFAULT_MESSAGE_BUFFER_SIZE).toNat = b.writeOffset.toNat + n.toNat + 255 := by
      have default : DEFAULT_MESSAGE_BUFFER_SIZE.toNat = 255 := rfl
      rw [BitVec.toNat_add, BitVec.toNat_add, BitVec.toNat_sub, left, default]
      omega
    rw [makeRoom, get_bind, if_pos full]
    generalize b.bufferMaxSize + (n - (b.bufferMaxSize - b.writeOffset)) +
      DEFAULT_MESSAGE_BUFFER_SIZE = larger at asked ⊢
    obtain ⟨memory, moved, length, front⟩ := reallocate_ok (n := larger) host fit
      (by omega)
    refine ⟨_, moved, ?_⟩
    exact {
      sized := length
      room := by
        change b.writeOffset.toNat + n.toNat < larger.toNat
        omega
      grown := by
        change b.bufferMaxSize.toNat ≤ larger.toNat
        omega
      contents := front
      writeOffset := rfl
      endianness := rfl
      readOffset := rfl
      already := by
        intro room
        omega }
  · have room : n.toNat < (b.bufferMaxSize - b.writeOffset).toNat := Nat.lt_of_not_le full
    refine ⟨b, by rw [makeRoom, get_bind, if_neg full, pure_apply], ?_⟩
    exact {
      sized := fit.sized
      room := by omega
      grown := Nat.le_refl _
      contents := rfl
      writeOffset := rfl
      endianness := rfl
      readOffset := rfl
      already := fun _ => rfl }

/-! ## Writing -/

/-- A write of `bytes`: they follow the contents, the offset moves behind them. -/
structure Appended (bytes : List Byte) (b b' : MessageBuffer) : Prop where
  fit : Fit b'
  room : b'.writeOffset.toNat < b'.bufferMaxSize.toNat
  grown : b.bufferMaxSize.toNat ≤ b'.bufferMaxSize.toNat
  contents : b'.contents = b.contents ++ bytes
  offset : b'.writeOffset.toNat = b.writeOffset.toNat + bytes.length
  behind : b'.writeOffset.toNat < b.bufferMaxSize.toNat →
    b'.bufferMaxSize = b.bufferMaxSize ∧
      b'.buffer.drop b'.writeOffset.toNat = b.buffer.drop b'.writeOffset.toNat
  endianness : b'.bufferHasMyEndianness = b.bufferHasMyEndianness
  readOffset : b'.readOffset = b.readOffset

theorem Appended.trans {first second : List Byte} {b c d : MessageBuffer}
    (one : Appended first b c) (two : Appended second c d) : Appended (first ++ second) b d where
  fit := two.fit
  room := two.room
  grown := Nat.le_trans one.grown two.grown
  contents := by rw [two.contents, one.contents, List.append_assoc]
  offset := by
    rw [two.offset, one.offset, List.length_append]
    omega
  behind := by
    intro inside
    have further := two.offset
    obtain ⟨same, kept⟩ := one.behind (by omega)
    obtain ⟨same', kept'⟩ := two.behind (by rw [same]; omega)
    refine ⟨same'.trans same, ?_⟩
    rw [kept', further, ← List.drop_drop, kept, List.drop_drop]
  endianness := by rw [two.endianness, one.endianness]
  readOffset := by rw [two.readOffset, one.readOffset]

theorem Roomy.appended {bytes : List Byte} {b c d : MessageBuffer} (roomy : Roomy bytes.length b c)
    (laid : Laid bytes c d) : Appended bytes b d where
  fit := laid.fit roomy.fit (Nat.le_of_lt roomy.room)
  room := by
    rw [laid.offset, laid.bufferMaxSize]
    exact roomy.room
  grown := by
    rw [laid.bufferMaxSize]
    exact roomy.grown
  contents := by rw [MessageBuffer.contents, laid.front, roomy.contents]
  offset := by rw [laid.offset, roomy.writeOffset]
  behind := by
    intro inside
    have same := roomy.already (by rw [← roomy.writeOffset, ← laid.offset]; exact inside)
    refine ⟨by rw [laid.bufferMaxSize, same], by rw [laid.behind, same]⟩
  endianness := by rw [laid.endianness, roomy.endianness]
  readOffset := by rw [laid.readOffset, roomy.readOffset]

theorem toNat_ofNat {n : Nat} (small : n < 2 ^ 32) : (BitVec.ofNat 32 n).toNat = n := by
  rw [BitVec.toNat_ofNat, Nat.mod_eq_of_lt small]

theorem pointed_ok {bytes : List Byte} {n : UInt32T} (all : n.toNat = bytes.length)
    (b : MessageBuffer) : pointed bytes n b = .ok bytes b := by
  rw [pointed, if_pos (by omega), all, List.take_length, pure_apply]

theorem write_uint8s_ok {b : MessageBuffer} (host : Host) (data : List Byte) (fit : Fit b)
    (small : b.writeOffset.toNat + data.length + 255 < 2 ^ 32) :
    ∃ at' b', write_uint8s host data (BitVec.ofNat 32 data.length) b = .ok at' b' ∧
      Appended data b b' := by
  have count : (BitVec.ofNat 32 data.length).toNat = data.length := toNat_ofNat (by omega)
  obtain ⟨c, room, roomy⟩ := makeRoom_ok (n := BitVec.ofNat 32 data.length) host fit
    (by rw [count]; exact small)
  rw [count] at roomy
  obtain ⟨d, copied, laid⟩ := put_ok _ roomy.fit (Nat.le_of_lt roomy.room)
  refine ⟨d.writeOffset - BitVec.ofNat 32 data.length, d, ?_, roomy.appended laid⟩
  rw [write_uint8s, bind_ok room, bind_ok (pointed_ok count c), bind_ok copied, get_bind,
    pure_apply]

theorem writeWords_ok {bits : Nat} {host : Host} {w : Nat} {swapped : BitVec bits → Access Unit}
    (each : ∀ x b, Fit b → b.writeOffset.toNat + w ≤ b.bufferMaxSize.toNat →
      ∃ b', swapped x b = .ok () b' ∧ Laid (layout host.order.flip w x) b b')
    (wide : 0 < w) {data : List (BitVec bits)} {b : MessageBuffer} (fit : Fit b)
    (small : b.writeOffset.toNat + w * data.length + 255 < 2 ^ 32) :
    ∃ at' b', writeWords host w swapped data (BitVec.ofNat 32 data.length) b = .ok at' b' ∧
      Appended (data.flatMap (layout (order host b) w)) b b' := by
  have fewer : data.length ≤ w * data.length := Nat.le_mul_of_pos_left _ wide
  have count : (BitVec.ofNat 32 data.length).toNat = data.length := toNat_ofNat (by omega)
  have total : (BitVec.ofNat 32 w * BitVec.ofNat 32 data.length).toNat = w * data.length := by
    rw [← BitVec.ofNat_mul, toNat_ofNat (by omega)]
  have length (o : Order) : (data.flatMap (layout o w)).length = w * data.length :=
    length_flatMap_layout (length_layout o w) data
  obtain ⟨c, room, roomy⟩ :=
    makeRoom_ok (n := BitVec.ofNat 32 w * BitVec.ofNat 32 data.length) host fit (by rw [total]; exact small)
  rw [total, ← length (order host b)] at roomy
  have inside := Nat.le_of_lt roomy.room
  rw [length] at inside
  rw [writeWords, bind_ok room, get_bind, roomy.endianness]
  cases mine : b.bufferHasMyEndianness with
  | true =>
    have same : order host b = host.order := by simp [order, mine]
    rw [same] at roomy ⊢
    obtain ⟨d, copied, laid⟩ := put_ok _ roomy.fit (Nat.le_of_lt roomy.room)
    refine ⟨d.writeOffset - BitVec.ofNat 32 w * BitVec.ofNat 32 data.length, d, ?_,
      roomy.appended laid⟩
    have all := pointed_ok (total.trans (length host.order).symm) c
    rw [if_pos rfl, bind_ok all, bind_ok copied]
    simp only [get_bind, pure_apply]
  | false =>
    have other : order host b = host.order.flip := by simp [order, mine]
    rw [other] at roomy ⊢
    obtain ⟨d, copied, laid⟩ :=
      forEach_ok (length_layout host.order.flip w) each data roomy.fit inside
    refine ⟨d.writeOffset - BitVec.ofNat 32 w * BitVec.ofNat 32 data.length, d, ?_,
      roomy.appended laid⟩
    rw [if_neg (by simp), count, bind_ok copied]
    simp only [get_bind, pure_apply]

/-- The bytes of an item in a byte order. -/
def wire (o : Order) : Item → List Byte
  | .scalars t data => data.flatMap (layout o t.width)
  | .bool toggle => [if toggle then 1 else 0]
  | .string str => layout o 4 (BitVec.ofNat 32 str.length) ++ str

@[simp] theorem length_wire (o : Order) (item : Item) : (wire o item).length = item.size := by
  cases item with
  | scalars t data => exact length_flatMap_layout (length_layout o t.width) data
  | bool toggle => simp [wire, Item.size]
  | string str => simp [wire, Item.size]

theorem flatMap_layout_byte (o : Order) (data : List Byte) : data.flatMap (layout o 1) = data := by
  have single (x : Byte) : layout o 1 x = [x] := by
    cases o <;> simp [layout, digits]
  induction data with
  | nil => simp
  | cons x rest ih => rw [List.flatMap_cons, single, ih, List.singleton_append]

theorem write_uint16s_ok {b : MessageBuffer} (host : Host) (data : List (BitVec 16)) (fit : Fit b)
    (small : b.writeOffset.toNat + 2 * data.length + 255 < 2 ^ 32) :
    ∃ at' b', write_uint16s host data (BitVec.ofNat 32 data.length) b = .ok at' b' ∧
      Appended (data.flatMap (layout (order host b) 2)) b b' := by
  apply writeWords_ok _ (by omega) fit small
  intro x c fit' inside
  rw [← layout_swap16]
  exact put_ok _ fit' (by simpa using inside)

theorem write_uint32s_ok {b : MessageBuffer} (host : Host) (data : List (BitVec 32)) (fit : Fit b)
    (small : b.writeOffset.toNat + 4 * data.length + 255 < 2 ^ 32) :
    ∃ at' b', write_uint32s host data (BitVec.ofNat 32 data.length) b = .ok at' b' ∧
      Appended (data.flatMap (layout (order host b) 4)) b b' := by
  apply writeWords_ok _ (by omega) fit small
  intro x c fit' inside
  rw [← layout_swap32]
  exact put_ok _ fit' (by simpa using inside)

theorem write_uint64s_ok {b : MessageBuffer} (host : Host) (data : List (BitVec 64)) (fit : Fit b)
    (small : b.writeOffset.toNat + 8 * data.length + 255 < 2 ^ 32) :
    ∃ at' b', write_uint64s host data (BitVec.ofNat 32 data.length) b = .ok at' b' ∧
      Appended (data.flatMap (layout (order host b) 8)) b b' := by
  apply writeWords_ok _ (by omega) fit small
  intro x c fit' inside
  rw [← layout_swap64]
  obtain ⟨d, second, laid⟩ := put_ok (layout host.order 4
    (LIBHLA_UINT32_SWAP_BYTES (second32 host x))) fit' (by rw [length_layout]; omega)
  have offset := laid.offset
  rw [length_layout] at offset
  obtain ⟨e, first, laid'⟩ := put_ok (layout host.order 4
    (LIBHLA_UINT32_SWAP_BYTES (first32 host x)))
    (laid.fit fit' (by rw [length_layout]; omega))
    (by rw [length_layout, offset, laid.bufferMaxSize]; omega)
  exact ⟨e, by rw [bind_ok second, first], laid.trans laid'⟩

/-- One typed write appends the bytes of its item. -/
theorem write_ok {b : MessageBuffer} (host : Host) (item : Item) (fit : Fit b)
    (small : b.writeOffset.toNat + item.size + 255 < 2 ^ 32) :
    ∃ at' b', write host item b = .ok at' b' ∧ Appended (wire (order host b) item) b b' := by
  cases item with
  | scalars t data =>
    have bytes (data : List Byte) (small : b.writeOffset.toNat + 1 * data.length + 255 < 2 ^ 32) :
        ∃ at' b', write_uint8s host data (BitVec.ofNat 32 data.length) b = .ok at' b' ∧
          Appended (data.flatMap (layout (order host b) 1)) b b' := by
      rw [flatMap_layout_byte]
      exact write_uint8s_ok _ _ fit (by omega)
    cases t with
    | uint8 => exact bytes data small
    | int8 => exact bytes data small
    | char => exact bytes data small
    | uint16 => exact write_uint16s_ok _ _ fit small
    | int16 => exact write_uint16s_ok _ _ fit small
    | uint32 => exact write_uint32s_ok _ _ fit small
    | int32 => exact write_uint32s_ok _ _ fit small
    | float => exact write_uint32s_ok _ _ fit small
    | uint64 => exact write_uint64s_ok _ _ fit small
    | int64 => exact write_uint64s_ok _ _ fit small
    | double => exact write_uint64s_ok _ _ fit small
  | bool toggle =>
    cases toggle with
    | false => exact write_uint8s_ok _ [0] fit small
    | true => exact write_uint8s_ok _ [1] fit small
  | string str =>
    simp only [Item.size] at small
    obtain ⟨at₁, c, first, length⟩ :=
      write_uint32s_ok host [BitVec.ofNat 32 str.length] fit
        (by simp; omega)
    have offset := length.offset
    simp only [List.flatMap_cons, List.flatMap_nil, List.append_nil, length_layout] at offset
    obtain ⟨at₂, d, second, chars⟩ :=
      write_uint8s_ok host str length.fit (by omega)
    refine ⟨at₂, d, ?_, ?_⟩
    · exact (bind_ok first).trans second
    · have whole := length.trans chars
      simpa only [wire, List.flatMap_cons, List.flatMap_nil, List.append_nil] using whole

theorem writeAll_ok {b : MessageBuffer} (host : Host) (items : List Item) (fit : Fit b)
    (room : b.writeOffset.toNat < b.bufferMaxSize.toNat)
    (small : b.writeOffset.toNat + (items.map Item.size).sum + 255 < 2 ^ 32) :
    ∃ b', writeAll host items b = .ok () b' ∧
      Appended (items.flatMap (wire (order host b))) b b' := by
  induction items generalizing b with
  | nil =>
    refine ⟨b, by simp [writeAll], ?_⟩
    constructor <;> simp [fit, room]
  | cons item rest ih =>
    rw [List.map_cons, List.sum_cons] at small
    obtain ⟨at', c, first, appended⟩ := write_ok host item fit (by omega)
    have offset := appended.offset
    rw [length_wire] at offset
    have same : order host c = order host b := by rw [order, appended.endianness, order]
    obtain ⟨d, others, later⟩ := ih appended.fit appended.room (by omega)
    refine ⟨d, ?_, ?_⟩
    · rw [writeAll, bind_ok first, others]
    · rw [same] at later
      exact appended.trans later

/-! ## Reading -/

/-- The buffer after `n` bytes were read. -/
def advance (b : MessageBuffer) (n : Nat) : MessageBuffer :=
  { b with readOffset := b.readOffset + BitVec.ofNat 32 n }

@[simp] theorem advance_advance (b : MessageBuffer) (m n : Nat) :
    (b.advance m).advance n = b.advance (m + n) := by
  simp only [advance, BitVec.ofNat_add, BitVec.add_assoc]

@[simp] theorem advance_writeOffset (b : MessageBuffer) (n : Nat) :
    (b.advance n).writeOffset = b.writeOffset := by
  simp [advance]

@[simp] theorem order_advance (host : Host) (b : MessageBuffer) (n : Nat) :
    order host (b.advance n) = order host b := by
  rw [order, order, advance]

theorem Fit.advance {b : MessageBuffer} (fit : Fit b) (n : Nat) : Fit (b.advance n) where
  sized := fit.sized
  inside := fit.inside

theorem readOffset_advance {b : MessageBuffer} {n : Nat}
    (inside : b.readOffset.toNat + n ≤ b.writeOffset.toNat) :
    (b.advance n).readOffset.toNat = b.readOffset.toNat + n := by
  have bound := b.writeOffset.isLt
  rw [MessageBuffer.advance, BitVec.toNat_add, BitVec.toNat_ofNat]
  omega

theorem unread_advance {b : MessageBuffer} {n : Nat}
    (inside : b.readOffset.toNat + n ≤ b.writeOffset.toNat) :
    (b.advance n).unread = b.unread.drop n := by
  rw [unread, readOffset_advance inside, unread, List.drop_drop]
  simp [contents, MessageBuffer.advance]

theorem take_ok {b : MessageBuffer} {n : UInt32T} (fit : Fit b)
    (inside : b.readOffset.toNat + n.toNat ≤ b.writeOffset.toNat) :
    take n b = .ok (b.unread.take n.toNat) (b.advance n.toNat) := by
  have bytes : (b.buffer.drop b.readOffset.toNat).take n.toNat = b.unread.take n.toNat := by
    rw [unread, contents, List.drop_take, List.take_take, Nat.min_eq_left (by omega)]
  have copied := copyFrom_ok fit (Nat.le_trans inside fit.inside)
  rw [bytes] at copied
  rw [take, get_bind, bind_ok copied, modify_bind, pure_apply, MessageBuffer.advance,
    BitVec.ofNat_toNat, BitVec.setWidth_eq]

theorem times_ok {α : Type} {body : Access α} {w : Nat} {f : List Byte → α}
    (each : ∀ b, Fit b → b.readOffset.toNat + w ≤ b.writeOffset.toNat →
      body b = .ok (f (b.unread.take w)) (b.advance w))
    {n : Nat} {b : MessageBuffer} (fit : Fit b)
    (inside : b.readOffset.toNat + w * n ≤ b.writeOffset.toNat) :
    times body n b = .ok (elements w f n b.unread) (b.advance (w * n)) := by
  induction n generalizing b with
  | zero => simp [times, elements, MessageBuffer.advance]
  | succ n ih =>
    have split : w * (n + 1) = w + w * n := by ring
    have here : b.readOffset.toNat + w ≤ b.writeOffset.toNat := by omega
    have others := ih (b := b.advance w) (fit.advance w) (by
      rw [readOffset_advance here, advance_writeOffset]
      omega)
    rw [times, bind_ok (each b fit here), bind_ok others, pure_apply, elements,
      unread_advance here, advance_advance, split]

theorem toNat_bytes {w : Nat} {n : UInt32T} :
    (BitVec.ofNat 32 w * n).toNat = w * n.toNat % 2 ^ 32 := by
  rw [BitVec.toNat_mul, BitVec.toNat_ofNat, Nat.mod_mul_mod]

/-- From `b`, the read of `n` elements of `w` bytes consumes them, and finds the
array that was written. -/
def Finds {bits : Nat} (host : Host) (w : Nat) (n : UInt32T) (b : MessageBuffer)
    (read : Access (List (BitVec bits) × UInt32T)) : Prop :=
  ∃ data off, read b = .ok (data, off) (b.advance (w * n.toNat)) ∧ data.length = n.toNat ∧
    ∀ xs rest, xs.length = n.toNat →
      b.unread = xs.flatMap (layout (order host b) w) ++ rest → data = xs

/-- A read that the check lets through and whose data is there. `f` is how a
swapped element is decoded. -/
theorem readWords_ok {bits : Nat} {host : Host} {name : String} {size : UInt32T} {w : Nat}
    {swapped : Access (BitVec bits)} {f : List Byte → BitVec bits} (whole : bits = 8 * w)
    (wide : 0 < w)
    (each : ∀ b, Fit b → b.readOffset.toNat + w ≤ b.writeOffset.toNat →
      swapped b = .ok (f (b.unread.take w)) (b.advance w))
    (back : ∀ x, f (layout host.order.flip w x) = x)
    {n : UInt32T} {b : MessageBuffer} (fit : Fit b)
    (inside : b.readOffset.toNat + w * n.toNat ≤ b.writeOffset.toNat) :
    Finds host w n b (readWords host name size w swapped n) := by
  have bound := b.writeOffset.isLt
  have total : (BitVec.ofNat 32 w * n).toNat = w * n.toNat := by
    rw [toNat_bytes, Nat.mod_eq_of_lt (by omega)]
  have passes : ¬ b.writeOffset < BitVec.ofNat 32 w * n + b.readOffset := by
    apply Nat.not_lt_of_le
    rw [BitVec.toNat_add, total]
    omega
  have unswapped (x : BitVec bits) : word host.order bits (layout host.order w x) = x :=
    word_layout host.order whole x
  cases mine : b.bufferHasMyEndianness with
  | true =>
    have copied := take_ok fit (n := BitVec.ofNat 32 w * n) (by rw [total]; exact inside)
    have count : w * n.toNat / w = n.toNat := Nat.mul_div_cancel_left _ wide
    rw [total] at copied
    refine ⟨elements w (word host.order bits) n.toNat b.unread,
      (b.advance (w * n.toNat)).readOffset - BitVec.ofNat 32 w * n, ?_, length_elements _ _ _ _, ?_⟩
    · rw [readWords, get_bind]
      simp only [if_neg passes, mine, if_true]
      rw [bind_ok copied, pure_bind, get_bind, pure_apply, total, count,
        elements_take _ (Nat.le_refl _)]
    · intro xs rest length laid
      rw [← length, laid, order, mine, if_pos rfl]
      exact elements_flatMap (length_layout _ w) unswapped xs rest
  | false =>
    have copied := times_ok each (n := n.toNat) fit inside
    refine ⟨elements w f n.toNat b.unread,
      (b.advance (w * n.toNat)).readOffset - BitVec.ofNat 32 w * n, ?_, length_elements _ _ _ _, ?_⟩
    · rw [readWords, get_bind]
      simp only [if_neg passes, mine]
      rw [if_neg (by simp), bind_ok copied, get_bind, pure_apply]
    · intro xs rest length laid
      rw [← length, laid, order, mine, if_neg (by simp)]
      exact elements_flatMap (length_layout _ w) back xs rest

theorem read_uint8s_ok {n : UInt32T} {b : MessageBuffer} (host : Host) (fit : Fit b)
    (inside : b.readOffset.toNat + 1 * n.toNat ≤ b.writeOffset.toNat) :
    Finds host 1 n b (read_uint8s n) := by
  have bound := b.writeOffset.isLt
  have passes : ¬ b.writeOffset < n + b.readOffset := by
    apply Nat.not_lt_of_le
    rw [BitVec.toNat_add]
    omega
  rw [Nat.one_mul] at inside
  refine ⟨b.unread.take n.toNat, (b.advance n.toNat).readOffset - n, ?_, ?_, ?_⟩
  · rw [read_uint8s, get_bind, Nat.one_mul]
    simp only [if_neg passes]
    rw [bind_ok (take_ok fit inside), get_bind, pure_apply]
  · rw [List.length_take, fit.length_unread]
    omega
  · intro xs rest length laid
    rw [laid, flatMap_layout_byte, ← length, List.take_left]

theorem read_uint16s_ok {n : UInt32T} {b : MessageBuffer} (host : Host) (fit : Fit b)
    (inside : b.readOffset.toNat + 2 * n.toNat ≤ b.writeOffset.toNat) :
    Finds host 2 n b (read_uint16s host n) := by
  apply readWords_ok (f := fun bytes => LIBHLA_UINT16_SWAP_BYTES (word host.order 16 bytes))
    (by omega) (by omega) _ (swap_word16 host.order) fit inside
  intro c fit' room
  rw [bind_ok (take_ok (n := 2) fit' room)]
  simp

theorem read_uint32s_ok {n : UInt32T} {b : MessageBuffer} (host : Host) (fit : Fit b)
    (inside : b.readOffset.toNat + 4 * n.toNat ≤ b.writeOffset.toNat) :
    Finds host 4 n b (read_uint32s host n) := by
  apply readWords_ok (f := fun bytes => LIBHLA_UINT32_SWAP_BYTES (word host.order 32 bytes))
    (by omega) (by omega) _ (swap_word32 host.order) fit inside
  intro c fit' room
  rw [bind_ok (take_ok (n := 4) fit' room)]
  simp

/-- How the two halves of a swapped 64-bit element are put together. -/
def swapped64 (host : Host) (bytes : List Byte) : BitVec 64 :=
  ui64 host (LIBHLA_UINT32_SWAP_BYTES (word host.order 32 ((bytes.drop 4).take 4)))
    (LIBHLA_UINT32_SWAP_BYTES (word host.order 32 (bytes.take 4)))

theorem swapped64_layout (host : Host) (x : BitVec 64) :
    swapped64 host (layout host.order.flip 8 x) = x := by
  have four (y : BitVec 32) : (layout host.order 4 (LIBHLA_UINT32_SWAP_BYTES y)).length = 4 :=
    length_layout host.order 4 _
  have twice (y : BitVec 32) : LIBHLA_UINT32_SWAP_BYTES
      (word host.order 32 (layout host.order 4 (LIBHLA_UINT32_SWAP_BYTES y))) = y := by
    rw [layout_swap32, swap_word32]
  rw [swapped64, ← layout_swap64, List.take_left' (four _), List.drop_left' (four _),
    List.take_of_length_le (by rw [four]), twice, twice, ui64_halves]

theorem read_uint64s_ok {n : UInt32T} {b : MessageBuffer} (host : Host) (fit : Fit b)
    (inside : b.readOffset.toNat + 8 * n.toNat ≤ b.writeOffset.toNat) :
    Finds host 8 n b (read_uint64s host n) := by
  apply readWords_ok (f := swapped64 host) (by omega) (by omega) _ (swapped64_layout host) fit
    inside
  intro c fit' room
  have here : c.readOffset.toNat + 4 ≤ c.writeOffset.toNat := by omega
  have second := take_ok (n := 4) fit' here
  have first := take_ok (n := 4) (fit'.advance 4) (by
    rw [readOffset_advance here, advance_writeOffset]
    exact room)
  have four : BitVec.toNat (4 : UInt32T) = 4 := by simp
  rw [four] at first second
  have behind : c.unread.drop 4 = (c.advance 4).unread := (unread_advance here).symm
  rw [bind_ok second, bind_ok first, pure_apply, advance_advance, swapped64, List.drop_take,
    List.take_take, List.take_take, behind]
  simp

/-- A read of an array that lies before the write offset. -/
theorem readScalars_ok {t : Scalar} {n : UInt32T} {b : MessageBuffer} (host : Host) (fit : Fit b)
    (inside : b.readOffset.toNat + t.width * n.toNat ≤ b.writeOffset.toNat) :
    Finds host t.width n b (readScalars host t n) := by
  cases t with
  | uint8 => exact read_uint8s_ok _ fit inside
  | int8 => exact read_uint8s_ok _ fit inside
  | char => exact read_uint8s_ok _ fit inside
  | uint16 => exact read_uint16s_ok _ fit inside
  | int16 => exact read_uint16s_ok _ fit inside
  | uint32 => exact read_uint32s_ok _ fit inside
  | int32 => exact read_uint32s_ok _ fit inside
  | float => exact read_uint32s_ok _ fit inside
  | uint64 => exact read_uint64s_ok _ fit inside
  | int64 => exact read_uint64s_ok _ fit inside
  | double => exact read_uint64s_ok _ fit inside

/-- The read of one element. -/
theorem retval_ok {bits : Nat} {host : Host} {w : Nat} {b : MessageBuffer}
    {read : Access (List (BitVec bits) × UInt32T)} (finds : Finds host w 1 b read) :
    ∃ x, retval read b = .ok x (b.advance w) ∧
      ∀ y rest, b.unread = layout (order host b) w y ++ rest → x = y := by
  obtain ⟨data, off, found, -, written⟩ := finds
  have one : w * BitVec.toNat (1 : UInt32T) = w := by simp
  rw [one] at found
  refine ⟨data.headD 0, by rw [retval, bind_ok found, pure_apply], ?_⟩
  intro y rest laid
  have single : data = [y] := written [y] rest (by simp) (by simpa using laid)
  rw [single, List.headD_cons]

theorem assign_ok {len : BitVec 32} {b : MessageBuffer} (fit : Fit b) (positive : 0 ≤ len.toInt)
    (inside : b.readOffset.toNat + len.toNat ≤ b.writeOffset.toNat) :
    assign len b = .ok (b.unread.take len.toNat) b := by
  have bytes : (b.buffer.drop b.readOffset.toNat).take len.toNat = b.unread.take len.toNat := by
    rw [unread, contents, List.drop_take, List.take_take, Nat.min_eq_left (by omega)]
  have copied := copyFrom_ok fit (Nat.le_trans inside fit.inside)
  rw [bytes] at copied
  rw [assign]
  simp only [if_neg (Int.not_lt.mpr positive)]
  rw [get_bind, copied]

/-- The characters of a string, once its length was read. -/
theorem read_string_ok {host : Host} {len : BitVec 32} {b : MessageBuffer} (fit : Fit b)
    (length : read_int32 host b = .ok len (b.advance 4)) (positive : 0 ≤ len.toInt)
    (inside : b.readOffset.toNat + (4 + len.toNat) ≤ b.writeOffset.toNat) :
    read_string host b =
      .ok ((b.unread.drop 4).take len.toNat) (b.advance (4 + len.toNat)) := by
  have bound := b.writeOffset.isLt
  have here : b.readOffset.toNat + 4 ≤ b.writeOffset.toNat := by omega
  have behind := readOffset_advance here
  have passes : ¬ (b.advance 4).writeOffset < len + (b.advance 4).readOffset := by
    apply Nat.not_lt_of_le
    rw [advance_writeOffset, BitVec.toNat_add, behind]
    omega
  have chars := assign_ok (fit.advance 4) positive (by rw [behind, advance_writeOffset]; omega)
  rw [unread_advance here] at chars
  have together : b.advance (4 + len.toNat) =
      { b.advance 4 with readOffset := (b.advance 4).readOffset + len } := by
    rw [← advance_advance, MessageBuffer.advance, BitVec.ofNat_toNat, BitVec.setWidth_eq]
  rw [read_string, bind_ok length, get_bind]
  simp only [if_neg passes]
  rw [bind_ok chars, modify_bind, pure_apply, together]

end Certi.MessageBuffer
