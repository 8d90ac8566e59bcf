import Certi.LibHLA.BufferRules

/-!
# The reserved bytes, and receiving

The first five bytes of a buffer hold its byte order and its size. They are
written with the write offset moved back to 1 for a moment, so that creating a
buffer of less than six bytes reallocates it; and a received buffer takes its
size and its byte order from them.
-/
namespace Certi.MessageBuffer

open Bytes Throwing

def flag (o : Order) : Byte :=
  match o with
  | .little => 0x00
  | .big => 0x01

/-- The five reserved bytes of a buffer of `n` bytes. -/
def header (o : Order) (n : UInt32T) : List Byte := flag o :: layout o 4 n

@[simp] theorem length_header (o : Order) (n : UInt32T) : (header o n).length = 5 := by
  simp [header]

theorem updateReservedBytes_eq (host : Host) (b : MessageBuffer) :
    updateReservedBytes host b =
      (do
        copyInto 0 [flag (order host b)]
        setSizeInReservedBytes host (← size) : Access Unit) b := by
  unfold updateReservedBytes HostIsBigEndian HostIsLittleEndian order Host.order flag
  rw [get_bind]
  cases host.isBigEndian <;> cases b.bufferHasMyEndianness <;> simp [Order.flip]

/-- The size goes behind the flag, through a write that may reallocate. -/
theorem updateReservedBytes_appends {b : MessageBuffer} (host : Host)
    (sized : b.buffer.length = b.bufferMaxSize.toNat) (some : 1 ≤ b.bufferMaxSize.toNat) :
    ∃ memory c, updateReservedBytes host b = .ok () { c with writeOffset := b.writeOffset } ∧
      memory.length = b.buffer.length ∧ memory.take 1 = [flag (order host b)] ∧
      memory.drop 1 = b.buffer.drop 1 ∧
      Appended (layout (order host b) 4 b.writeOffset)
        { b with buffer := memory, writeOffset := 1 } c := by
  obtain ⟨memory, copied, length, front, behind⟩ :=
    copyInto_ok 0 [flag (order host b)] sized (by simpa using some)
  have moved : Fit { b with buffer := memory, writeOffset := 1 } := by
    constructor
    · exact length.trans sized
    · simpa using some
  obtain ⟨off, c, written, appended⟩ :=
    write_uint32s_ok host [b.writeOffset] moved (by simp)
  have wrote : write_uint32 host b.writeOffset { b with buffer := memory, writeOffset := 1 } =
      .ok off c := written
  have size : setSizeInReservedBytes host b.writeOffset { b with buffer := memory } =
      .ok () { c with writeOffset := b.writeOffset } := by
    rw [setSizeInReservedBytes, get_bind, modify_bind, bind_ok wrote, modify_apply]
  refine ⟨memory, c, ?_, length, by simpa using front, by simpa using behind, ?_⟩
  · rw [updateReservedBytes_eq, bind_ok copied, MessageBuffer.size, bind_assoc, get_bind, pure_bind,
      size]
  · simpa [order] using appended

/-- On a buffer with room for them, only the reserved bytes change. -/
theorem updateReservedBytes_ok {b : MessageBuffer} (host : Host) (fit : Fit b)
    (room : 5 < b.bufferMaxSize.toNat) :
    ∃ memory, updateReservedBytes host b = .ok () { b with buffer := memory } ∧
      memory.length = b.buffer.length ∧ memory.take 5 = header (order host b) b.writeOffset ∧
      memory.drop 5 = b.buffer.drop 5 := by
  obtain ⟨memory, c, updated, length, front, behind, appended⟩ :=
    updateReservedBytes_appends host fit.sized (by omega)
  have offset : c.writeOffset.toNat = 5 := by simpa using appended.offset
  obtain ⟨same, kept⟩ := appended.behind (by rw [offset]; exact room)
  have contents := appended.contents
  have start : MessageBuffer.contents { b with buffer := memory, writeOffset := 1 } =
      [flag (order host b)] := front
  rw [start, MessageBuffer.contents, offset] at contents
  rw [offset] at kept
  have later : memory.drop 5 = b.buffer.drop 5 := by
    have further : 5 = 1 + 4 := by omega
    rw [further, ← List.drop_drop, behind, List.drop_drop]
  refine ⟨c.buffer, ?_, ?_, contents, kept.trans later⟩
  · rw [updated, same, appended.endianness, appended.readOffset]
  · rw [appended.fit.sized, fit.sized, same]

/-- A buffer is created with room behind its reserved bytes, unless it is created empty. -/
theorem create_ok {n : UInt32T} (host : Host) (some : n ≠ 0) :
    ∃ b, create host n = .ok () b ∧ Fit b ∧ 5 < b.bufferMaxSize.toNat := by
  have positive : 1 ≤ n.toNat := by
    apply Nat.pos_of_ne_zero
    intro zero
    exact some (BitVec.eq_of_toNat_eq zero)
  have sized : (allocated host n).buffer.length = n.toNat := by simp [allocated]
  obtain ⟨memory, c, updated, -, -, -, appended⟩ :=
    updateReservedBytes_appends host sized positive
  have offset : c.writeOffset.toNat = 5 := by simpa using appended.offset
  have room := appended.room
  rw [offset] at room
  have cleared : c.buffer.length = c.bufferMaxSize.toNat := appended.fit.sized
  obtain ⟨zeroed, wiped, length, -, -⟩ :=
    copyInto_ok (b := { c with writeOffset := reservedBytes }) 0 (List.replicate n.toNat 0) cleared
      (by simpa [allocated] using appended.grown)
  refine ⟨{ c with writeOffset := reservedBytes, buffer := zeroed }, ?_, ?_, room⟩
  · rw [create, bind_ok updated]
    exact wiped
  · constructor
    · exact length.trans cleared
    · exact Nat.le_of_lt room

theorem create_zero (host : Host) :
    create host 0 = .error .outOfBounds (allocated host 0) := by
  have outside (bytes : Byte) : copyInto 0 [bytes] (allocated host 0) =
      .error .outOfBounds (allocated host 0) := by
    simp [copyInto, store, allocated]
  rw [create]
  apply bind_error
  rw [updateReservedBytes_eq]
  apply bind_error (outside _)

/-! ## Sending -/

theorem reset_ok {b : MessageBuffer} (host : Host) (fit : Fit b)
    (room : 5 < b.bufferMaxSize.toNat) :
    ∃ memory, reset host b = .ok () { b with
        buffer := memory
        bufferHasMyEndianness := true
        writeOffset := reservedBytes
        readOffset := reservedBytes } ∧
      memory.length = b.buffer.length := by
  have moved : Fit { b with
      bufferHasMyEndianness := true
      writeOffset := reservedBytes
      readOffset := reservedBytes } := by
    constructor
    · exact fit.sized
    · exact Nat.le_of_lt room
  obtain ⟨memory, updated, length, -, -⟩ := updateReservedBytes_ok host moved room
  exact ⟨memory, by rw [reset, modify_bind, updated], length⟩

/-! ## Receiving -/

/-- The byte order that received reserved bytes tell. -/
def toldOrder (head : List Byte) : Order :=
  if head.take 1 = [0x01] then .big else .little

/-- The size that received reserved bytes declare. -/
def declaredSize (head : List Byte) : UInt32T := word (toldOrder head) 32 (head.drop 1)

theorem header_told (o : Order) (n : UInt32T) : toldOrder (header o n) = o := by
  cases o <;> simp [toldOrder, header, flag]

theorem header_declared (o : Order) (n : UInt32T) : declaredSize (header o n) = n := by
  rw [declaredSize, header_told, header, List.drop_one, List.tail_cons, word_layout o (by omega)]

def assumeOrder (host : Host) : Order → Access Unit
  | .big => assumeBufferIsBigEndian host
  | .little => assumeBufferIsLittleEndian host

theorem assumeOrder_ok {o : Order} {b : MessageBuffer} (host : Host)
    (sized : b.buffer.length = b.bufferMaxSize.toNat) (some : 1 ≤ b.bufferMaxSize.toNat) :
    ∃ memory mine, assumeOrder host o b =
        .ok () { b with buffer := memory, bufferHasMyEndianness := mine } ∧
      (if mine then host.order else host.order.flip) = o ∧
      memory.length = b.buffer.length ∧ memory.drop 1 = b.buffer.drop 1 := by
  cases o with
  | little =>
    obtain ⟨memory, copied, length, -, behind⟩ :=
      copyInto_ok (b := { b with bufferHasMyEndianness := HostIsLittleEndian host }) 0 [0x00] sized
        (by simpa using some)
    refine ⟨memory, HostIsLittleEndian host, ?_, ?_, length, by simpa using behind⟩
    · rw [assumeOrder, assumeBufferIsLittleEndian, modify_bind, copied]
    · unfold HostIsLittleEndian Host.order
      cases host.isBigEndian <;> simp [Order.flip]
  | big =>
    obtain ⟨memory, copied, length, -, behind⟩ :=
      copyInto_ok (b := { b with bufferHasMyEndianness := HostIsBigEndian host }) 0 [0x01] sized
        (by simpa using some)
    refine ⟨memory, HostIsBigEndian host, ?_, ?_, length, by simpa using behind⟩
    · rw [assumeOrder, assumeBufferIsBigEndian, modify_bind, copied]
    · unfold HostIsBigEndian Host.order
      cases host.isBigEndian <;> simp [Order.flip]

theorem reallocate_covers {n : UInt32T} {b : MessageBuffer} (host : Host) (fit : Fit b) :
    ∃ memory max, reallocate host n b = .ok () { b with buffer := memory, bufferMaxSize := max } ∧
      memory.length = max.toNat ∧ n.toNat ≤ max.toNat ∧
      b.bufferMaxSize.toNat ≤ max.toNat := by
  by_cases larger : b.bufferMaxSize.toNat < n.toNat
  · obtain ⟨memory, moved, length, -⟩ := reallocate_ok host fit larger
    exact ⟨memory, n, moved, length, Nat.le_refl _, Nat.le_of_lt larger⟩
  · have stays : ¬ b.bufferMaxSize < n := larger
    refine ⟨b.buffer, b.bufferMaxSize, ?_, fit.sized, Nat.le_of_not_lt larger, Nat.le_refl _⟩
    rw [reallocate, get_bind, if_neg stays, pure_apply]

theorem assumeSizeFromReservedBytes_eq {host : Host} {b : MessageBuffer} {head : List Byte}
    (first : copyFrom 0 1 b = .ok (head.take 1) b) :
    assumeSizeFromReservedBytes host b =
      (do
        assumeOrder host (toldOrder head)
        modify fun b => { b with readOffset := 1 }
        let toBeAssumedSize ← read_uint32 host
        reallocate host toBeAssumedSize
        assumeSize toBeAssumedSize : Access Unit) b := by
  rw [assumeSizeFromReservedBytes, bind_ok first, toldOrder]
  by_cases big : head.take 1 = [0x01]
  · simp only [if_pos big, assumeOrder]
  · simp only [if_neg big, assumeOrder]

/-- The buffer takes the byte order and the size that its reserved bytes tell. -/
theorem assumeSizeFromReservedBytes_ok {b : MessageBuffer} (host : Host) (fit : Fit b)
    (five : b.writeOffset = 5) (room : 5 < b.bufferMaxSize.toNat) :
    ∃ c, assumeSizeFromReservedBytes host b = .ok () c ∧ Fit c ∧
      order host c = toldOrder b.contents ∧ c.writeOffset = declaredSize b.contents ∧
      c.readOffset = 5 ∧ 5 < c.bufferMaxSize.toNat := by
  have length : b.contents.length = 5 := by
    rw [fit.length_contents, five]
    simp
  have first : copyFrom 0 1 b = .ok (b.contents.take 1) b := by
    rw [copyFrom_ok fit (by simp; omega), contents, five, List.take_take]
    simp
  obtain ⟨memory, mine, assumed, told, long, behind⟩ :=
    assumeOrder_ok (o := toldOrder b.contents) host fit.sized (by omega)
  have fit₁ : Fit { b with buffer := memory, bufferHasMyEndianness := mine, readOffset := 1 } := by
    constructor
    · exact long.trans fit.sized
    · exact fit.inside
  have next : unread { b with buffer := memory, bufferHasMyEndianness := mine, readOffset := 1 } =
      layout (toldOrder b.contents) 4 (declaredSize b.contents) ++ [] := by
    rw [declaredSize, layout_word _ (by omega) (by rw [List.length_drop, length]), unread, contents,
      contents, List.drop_take, List.drop_take, List.append_nil]
    simp only [five]
    exact congrArg (List.take 4) behind
  obtain ⟨x, done, same⟩ := retval_ok (read_uint32s_ok (n := 1) host fit₁
    (by simp [five]))
  have size : x = declaredSize b.contents := same _ [] (by rw [order, told]; exact next)
  rw [size] at done
  have fit₂ : Fit { b with buffer := memory, bufferHasMyEndianness := mine, readOffset := 5 } := by
    constructor
    · exact long.trans fit.sized
    · exact fit.inside
  obtain ⟨memory', max, moved, length', covers, grown⟩ :=
    reallocate_covers (n := declaredSize b.contents) host fit₂
  have enough : declaredSize b.contents ≤ max := covers
  have read : read_uint32 host
      { b with buffer := memory, bufferHasMyEndianness := mine, readOffset := 1 } =
        .ok (declaredSize b.contents)
          { b with buffer := memory, bufferHasMyEndianness := mine, readOffset := 5 } := done
  refine ⟨{ b with
    buffer := memory'
    bufferMaxSize := max
    bufferHasMyEndianness := mine
    writeOffset := declaredSize b.contents
    readOffset := 5 }, ?_, ?_, told, rfl, rfl, Nat.lt_of_lt_of_le room grown⟩
  · rw [assumeSizeFromReservedBytes_eq first, bind_ok assumed, modify_bind, bind_ok read,
      bind_ok moved, assumeSize, modify_apply]
    simp only [if_pos enough]
  · constructor
    · exact length'
    · exact covers

theorem receiveBytes_ok {b : MessageBuffer} {bytes : List Byte} {n : UInt32T} (off : UInt32T)
    (more : List Byte)
    (sized : b.buffer.length = b.bufferMaxSize.toNat) (all : n.toNat = bytes.length)
    (inside : off.toNat + bytes.length ≤ b.bufferMaxSize.toNat) :
    ∃ memory, receiveBytes (bytes ++ more) off n b = .ok more { b with buffer := memory } ∧
      memory.length = b.buffer.length ∧
      (memory.drop off.toNat).take bytes.length = bytes := by
  obtain ⟨memory, copied, length, front, -⟩ := copyInto_ok _ _ sized inside
  have enough : ¬ (bytes ++ more).length < n.toNat := by
    rw [List.length_append]
    omega
  refine ⟨memory, ?_, length, ?_⟩
  · rw [receiveBytes, all, List.take_left, List.drop_left, bind_ok copied]
    rw [all] at enough
    simp only [if_neg enough, pure_apply]
  · have start : (b.buffer.take off.toNat).length = off.toNat := by
      rw [List.length_take, sized]
      omega
    have added : off.toNat + bytes.length - off.toNat = bytes.length := by omega
    rw [← added, ← List.drop_take, front, List.drop_left' start]

/-- After the reserved bytes were received, whatever size they declare. -/
theorem receive_eq {b : MessageBuffer} {head : List Byte} (host : Host) (rest : List Byte)
    (fit : Fit b)
    (room : 5 < b.bufferMaxSize.toNat) (length : head.length = 5) :
    ∃ c, receive host (head ++ rest) b =
        receiveBytes rest reservedBytes (declaredSize head - reservedBytes) c ∧ Fit c ∧
      order host c = toldOrder head ∧ c.writeOffset = declaredSize head ∧ c.readOffset = 5 ∧
      5 < c.bufferMaxSize.toNat := by
  obtain ⟨memory, cleared, long⟩ := reset_ok host fit room
  have sized : memory.length = b.bufferMaxSize.toNat := long.trans fit.sized
  obtain ⟨memory₁, first, long₁, start⟩ :=
    receiveBytes_ok (b := { b with
      buffer := memory
      bufferHasMyEndianness := true
      writeOffset := reservedBytes
      readOffset := reservedBytes }) (n := reservedBytes) 0 rest
      sized length.symm (by simp [length]; omega)
  have fit₁ : Fit { b with
      buffer := memory₁
      bufferHasMyEndianness := true
      writeOffset := reservedBytes
      readOffset := reservedBytes } := by
    constructor
    · exact long₁.trans sized
    · exact Nat.le_of_lt room
  have told : contents { b with
      buffer := memory₁
      bufferHasMyEndianness := true
      writeOffset := reservedBytes
      readOffset := reservedBytes } = head := by
    rw [length] at start
    exact start
  obtain ⟨c, assumed, fit₂, ordered, written, reading, room₂⟩ :=
    assumeSizeFromReservedBytes_ok host fit₁ (by simp [reservedBytes]) room
  rw [told] at ordered written
  refine ⟨c, ?_, fit₂, ordered, written, reading, room₂⟩
  rw [receive, bind_ok cleared, bind_ok first, bind_ok assumed, size, bind_assoc, get_bind,
    pure_bind, written]

/-- A frame of at least the reserved bytes, of which all bytes arrive. -/
theorem receive_ok {b : MessageBuffer} {head payload : List Byte} (host : Host)
    (more : List Byte) (fit : Fit b)
    (room : 5 < b.bufferMaxSize.toNat) (length : head.length = 5)
    (size : (declaredSize head).toNat = 5 + payload.length) :
    ∃ c, receive host (head ++ (payload ++ more)) b = .ok more c ∧ Fit c ∧
      order host c = toldOrder head ∧ c.writeOffset = declaredSize head ∧ c.readOffset = 5 ∧
      c.unread = payload := by
  obtain ⟨c, received, fit₁, ordered, written, reading, -⟩ :=
    receive_eq host (payload ++ more) fit room length
  have rest : (declaredSize head - reservedBytes).toNat = payload.length := by
    have five : BitVec.toNat reservedBytes = 5 := by simp [reservedBytes]
    have bound := (declaredSize head).isLt
    rw [BitVec.toNat_sub, size, five]
    omega
  have inside := fit₁.inside
  rw [written, size] at inside
  obtain ⟨memory, second, long, behind⟩ :=
    receiveBytes_ok reservedBytes more fit₁.sized rest inside
  refine ⟨{ c with buffer := memory }, by rw [received, second], ?_, ordered, written, reading, ?_⟩
  · constructor
    · exact long.trans fit₁.sized
    · exact fit₁.inside
  · have five : 5 + payload.length - 5 = payload.length := by omega
    rw [unread, contents, reading, written, size, List.drop_take]
    simp only [BitVec.reduceToNat, five]
    exact behind

end Certi.MessageBuffer
