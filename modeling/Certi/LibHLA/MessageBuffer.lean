import Certi.Lib.Bytes

/-!
# MessageBuffer

The byte buffer that messages are serialized to and read back from. Offsets and
sizes are `uint32_t` and wrap. Memory is the block that was allocated last; an
access that leaves the block is undefined in the source and ends the run here.
-/
namespace Certi

open Bytes

abbrev UInt32T := BitVec 32

/-- What the code finds where it runs: its byte order, and what new memory holds. -/
structure Host where
  isBigEndian : Bool
  fresh : Nat → Byte

def Host.order (host : Host) : Order :=
  if host.isBigEndian then .big else .little

inductive MessageBuffer.Fault where
  | MessageBufferError (reason : String)
  | NetworkError (reason : String)
  -- `std::length_error`, thrown by `std::string::assign`
  | lengthError
  | outOfBounds
  deriving DecidableEq, Repr

structure MessageBuffer where
  buffer : List Byte
  bufferMaxSize : UInt32T
  bufferHasMyEndianness : Bool
  writeOffset : UInt32T
  readOffset : UInt32T
  deriving DecidableEq, Repr

namespace MessageBuffer

abbrev Access := EStateM Fault MessageBuffer

def reservedBytes : UInt32T := 5

def DEFAULT_MESSAGE_BUFFER_SIZE : UInt32T := 255

def HostIsBigEndian (host : Host) : Bool := host.isBigEndian

def HostIsLittleEndian (host : Host) : Bool := !host.isBigEndian

/-! ## Memory -/

def copyInto (off : UInt32T) (bytes : List Byte) : Access Unit := fun b =>
  match store b.buffer off.toNat bytes with
  | some memory => .ok () { b with buffer := memory }
  | none => .error .outOfBounds b

def copyFrom (off n : UInt32T) : Access (List Byte) := fun b =>
  match load b.buffer off.toNat n.toNat with
  | some bytes => .ok bytes b
  | none => .error .outOfBounds b

/-- `memcpy(buffer + writeOffset, …)`, then `writeOffset +=` what was copied. -/
def put (bytes : List Byte) : Access Unit := do
  copyInto (← get).writeOffset bytes
  modify fun b => { b with writeOffset := b.writeOffset + BitVec.ofNat 32 bytes.length }

/-- `memcpy(…, buffer + readOffset, n)`, then `readOffset += n`. -/
def take (n : UInt32T) : Access (List Byte) := do
  let bytes ← copyFrom (← get).readOffset n
  modify fun b => { b with readOffset := b.readOffset + n }
  return bytes

/-- The first `n` bytes behind a caller's pointer. -/
def pointed (bytes : List Byte) (n : UInt32T) : Access (List Byte) :=
  if n.toNat ≤ bytes.length then pure (bytes.take n.toNat) else throw .outOfBounds

/-- The body of a loop over the first elements behind a caller's pointer. -/
def forEach {α : Type} (body : α → Access Unit) : Nat → List α → Access Unit
  | 0, _ => pure ()
  | _ + 1, [] => throw .outOfBounds
  | n + 1, x :: rest => do
    body x
    forEach body n rest

def times {α : Type} (body : Access α) : Nat → Access (List α)
  | 0 => pure []
  | n + 1 => do
    let x ← body
    let rest ← times body n
    return x :: rest

/-- `reallocate` on a buffer that is there. -/
def reallocate (host : Host) (n : UInt32T) : Access Unit := do
  let b ← get
  if b.bufferMaxSize < n then
    let oldbuf ← copyFrom 0 b.writeOffset
    set { b with buffer := (List.range n.toNat).map host.fresh, bufferMaxSize := n }
    copyInto 0 oldbuf

/-- The reallocation on demand that every write starts with. -/
def makeRoom (host : Host) (bytes : UInt32T) : Access Unit := do
  let b ← get
  if b.bufferMaxSize - b.writeOffset ≤ bytes then
    reallocate host (b.bufferMaxSize + (bytes - (b.bufferMaxSize - b.writeOffset)) +
      DEFAULT_MESSAGE_BUFFER_SIZE)

/-! ## Swapping bytes -/

def LIBHLA_UINT16_SWAP_BYTES (val : BitVec 16) : BitVec 16 :=
  ((val &&& 0x00ff#16) <<< 8) ||| ((val &&& 0xff00#16) >>> 8)

def LIBHLA_UINT32_SWAP_BYTES (val : BitVec 32) : BitVec 32 :=
  ((val &&& 0x000000ff#32) <<< 24) ||| ((val &&& 0x0000ff00#32) <<< 8) |||
    ((val &&& 0x00ff0000#32) >>> 8) ||| ((val &&& 0xff000000#32) >>> 24)

/-- `ui32[0]` of `union deux32`. -/
def first32 (host : Host) (ui64 : BitVec 64) : BitVec 32 :=
  if host.isBigEndian then ui64.extractLsb' 32 32 else ui64.extractLsb' 0 32

/-- `ui32[1]` of `union deux32`. -/
def second32 (host : Host) (ui64 : BitVec 64) : BitVec 32 :=
  if host.isBigEndian then ui64.extractLsb' 0 32 else ui64.extractLsb' 32 32

/-- `ui64` of `union deux32`, from its halves. -/
def ui64 (host : Host) (first second : BitVec 32) : BitVec 64 :=
  if host.isBigEndian then first ++ second else second ++ first

/-! ## Writing -/

def write_uint8s (host : Host) (data : List Byte) (n : UInt32T) : Access UInt32T := do
  makeRoom host n
  put (← pointed data n)
  return (← get).writeOffset - n

/-- The writes of several bytes an element: `swapped` is the body of their loop. -/
def writeWords {bits : Nat} (host : Host) (w : Nat) (swapped : BitVec bits → Access Unit)
    (data : List (BitVec bits)) (n : UInt32T) : Access UInt32T := do
  let bytes := BitVec.ofNat 32 w * n
  makeRoom host bytes
  if (← get).bufferHasMyEndianness then
    put (← pointed (data.flatMap (layout host.order w)) bytes)
  else
    forEach swapped n.toNat data
  return (← get).writeOffset - bytes

def write_uint16s (host : Host) (data : List (BitVec 16)) (n : UInt32T) : Access UInt32T :=
  writeWords host 2 (fun x => put (layout host.order 2 (LIBHLA_UINT16_SWAP_BYTES x))) data n

def write_uint32s (host : Host) (data : List (BitVec 32)) (n : UInt32T) : Access UInt32T :=
  writeWords host 4 (fun x => put (layout host.order 4 (LIBHLA_UINT32_SWAP_BYTES x))) data n

def write_uint64s (host : Host) (data : List (BitVec 64)) (n : UInt32T) : Access UInt32T :=
  writeWords host 8 (fun x => do
    put (layout host.order 4 (LIBHLA_UINT32_SWAP_BYTES (second32 host x)))
    put (layout host.order 4 (LIBHLA_UINT32_SWAP_BYTES (first32 host x)))) data n

/-! Signed integers, characters and floating point numbers are written as the
unsigned integers with the same bits. -/

def write_int8s (host : Host) (data : List Byte) (n : UInt32T) : Access UInt32T :=
  write_uint8s host data n

def write_chars (host : Host) (data : List Byte) (n : UInt32T) : Access UInt32T :=
  write_uint8s host data n

def write_int16s (host : Host) (data : List (BitVec 16)) (n : UInt32T) : Access UInt32T :=
  write_uint16s host data n

def write_int32s (host : Host) (data : List (BitVec 32)) (n : UInt32T) : Access UInt32T :=
  write_uint32s host data n

def write_floats (host : Host) (data : List (BitVec 32)) (n : UInt32T) : Access UInt32T :=
  write_uint32s host data n

def write_int64s (host : Host) (data : List (BitVec 64)) (n : UInt32T) : Access UInt32T :=
  write_uint64s host data n

def write_doubles (host : Host) (data : List (BitVec 64)) (n : UInt32T) : Access UInt32T :=
  write_uint64s host data n

def write_uint8 (host : Host) (data : Byte) : Access UInt32T := write_uint8s host [data] 1

def write_uint32 (host : Host) (data : BitVec 32) : Access UInt32T := write_uint32s host [data] 1

def write_int32 (host : Host) (data : BitVec 32) : Access UInt32T := write_int32s host [data] 1

def write_int64 (host : Host) (data : BitVec 64) : Access UInt32T := write_int64s host [data] 1

def write_double (host : Host) (data : BitVec 64) : Access UInt32T := write_doubles host [data] 1

def write_bool (host : Host) (toggle : Bool) : Access UInt32T :=
  if toggle then write_uint8 host 1 else write_uint8 host 0

def write_string (host : Host) (str : List Byte) : Access UInt32T := do
  let _ ← write_int32 host (BitVec.ofNat 32 str.length)
  write_chars host str (BitVec.ofNat 32 str.length)

/-! ## Reading -/

def invalidRead (name size : String) (b : MessageBuffer) : Fault :=
  .MessageBufferError (name ++ "::invalid read of size <" ++ size ++
    "> inside a buffer of readable size <" ++ toString (b.writeOffset - b.readOffset).toInt ++
    "> (writeOffset=" ++ toString b.writeOffset.toNat ++
    ",readOffset=" ++ toString b.readOffset.toNat ++ ").")

def read_uint8s (n : UInt32T) : Access (List Byte × UInt32T) := do
  let b ← get
  if b.writeOffset < n + b.readOffset then
    throw (invalidRead "read_uint8s" (toString n.toNat) b)
  let data ← take n
  return (data, (← get).readOffset - n)

/-- The reads of several bytes an element: `swapped` is the body of their loop. -/
def readWords {bits : Nat} (host : Host) (name : String) (size : UInt32T) (w : Nat)
    (swapped : Access (BitVec bits)) (n : UInt32T) : Access (List (BitVec bits) × UInt32T) := do
  let b ← get
  let bytes := BitVec.ofNat 32 w * n
  if b.writeOffset < bytes + b.readOffset then
    throw (invalidRead name (toString size.toNat) b)
  let data ←
    if b.bufferHasMyEndianness then do
      let copied ← take bytes
      pure (elements w (word host.order bits) (bytes.toNat / w) copied)
    else
      times swapped n.toNat
  return (data, (← get).readOffset - bytes)

def read_uint16s (host : Host) (n : UInt32T) : Access (List (BitVec 16) × UInt32T) :=
  readWords host "read_uint16s" (2 * n) 2 (do
    let bytes ← take 2
    return LIBHLA_UINT16_SWAP_BYTES (word host.order 16 bytes)) n

def read_uint32s (host : Host) (n : UInt32T) : Access (List (BitVec 32) × UInt32T) :=
  readWords host "read_uint32s" (4 * n) 4 (do
    let bytes ← take 4
    return LIBHLA_UINT32_SWAP_BYTES (word host.order 32 bytes)) n

-- The size in the text of this error is `4 * n` too.
def read_uint64s (host : Host) (n : UInt32T) : Access (List (BitVec 64) × UInt32T) :=
  readWords host "read_uint64s" (4 * n) 8 (do
    let second ← take 4
    let first ← take 4
    return ui64 host (LIBHLA_UINT32_SWAP_BYTES (word host.order 32 first))
      (LIBHLA_UINT32_SWAP_BYTES (word host.order 32 second))) n

def read_int8s (n : UInt32T) : Access (List Byte × UInt32T) := read_uint8s n

def read_chars (n : UInt32T) : Access (List Byte × UInt32T) := read_uint8s n

def read_int16s (host : Host) (n : UInt32T) : Access (List (BitVec 16) × UInt32T) :=
  read_uint16s host n

def read_int32s (host : Host) (n : UInt32T) : Access (List (BitVec 32) × UInt32T) :=
  read_uint32s host n

def read_floats (host : Host) (n : UInt32T) : Access (List (BitVec 32) × UInt32T) :=
  read_uint32s host n

def read_int64s (host : Host) (n : UInt32T) : Access (List (BitVec 64) × UInt32T) :=
  read_uint64s host n

def read_doubles (host : Host) (n : UInt32T) : Access (List (BitVec 64) × UInt32T) :=
  read_uint64s host n

/-- What `retval` holds after a read of one element into it. -/
def retval {bits : Nat} (read : Access (List (BitVec bits) × UInt32T)) : Access (BitVec bits) := do
  return (← read).1.headD 0

def read_uint8 : Access Byte := retval (read_uint8s 1)

def read_uint32 (host : Host) : Access (BitVec 32) := retval (read_uint32s host 1)

def read_int32 (host : Host) : Access (BitVec 32) := retval (read_int32s host 1)

def read_int64 (host : Host) : Access (BitVec 64) := retval (read_int64s host 1)

def read_double (host : Host) : Access (BitVec 64) := retval (read_doubles host 1)

def read_bool : Access Bool := do
  return 1 == (← read_uint8)

/-- `s.assign(buffer + readOffset, len)`: a negative `len` becomes a `size_t`
beyond every string's maximum. -/
def assign (len : BitVec 32) : Access (List Byte) := do
  if len.toInt < 0 then throw .lengthError
  copyFrom (← get).readOffset len

def read_string (host : Host) : Access (List Byte) := do
  let len ← read_int32 host
  let b ← get
  if b.writeOffset < len + b.readOffset then
    throw (invalidRead "read_string" (toString len.toInt) b)
  let s ← assign len
  modify fun b => { b with readOffset := b.readOffset + len }
  return s

/-! ## The reserved bytes -/

def size : Access UInt32T := return (← get).writeOffset

def setSizeInReservedBytes (host : Host) (n : UInt32T) : Access Unit := do
  let oldWR_Offset := (← get).writeOffset
  modify fun b => { b with writeOffset := 1 }
  let _ ← write_uint32 host n
  modify fun b => { b with writeOffset := oldWR_Offset }

def updateReservedBytes (host : Host) : Access Unit := do
  let b ← get
  if (HostIsBigEndian host && b.bufferHasMyEndianness) ||
      (HostIsLittleEndian host && !b.bufferHasMyEndianness) then
    copyInto 0 [0x01]
  else
    copyInto 0 [0x00]
  setSizeInReservedBytes host (← size)

def assumeBufferIsBigEndian (host : Host) : Access Unit := do
  modify fun b => { b with bufferHasMyEndianness := HostIsBigEndian host }
  copyInto 0 [0x01]

def assumeBufferIsLittleEndian (host : Host) : Access Unit := do
  modify fun b => { b with bufferHasMyEndianness := HostIsLittleEndian host }
  copyInto 0 [0x00]

def reset (host : Host) : Access Unit := do
  modify fun b => { b with
    bufferHasMyEndianness := true
    writeOffset := reservedBytes
    readOffset := reservedBytes }
  updateReservedBytes host

def assumeSize (size : UInt32T) : Access Unit :=
  modify fun b => { b with
    writeOffset := if size ≤ b.bufferMaxSize then size else b.bufferMaxSize }

def assumeSizeFromReservedBytes (host : Host) : Access Unit := do
  let first ← copyFrom 0 1
  if first = [0x01] then assumeBufferIsBigEndian host else assumeBufferIsLittleEndian host
  modify fun b => { b with readOffset := 1 }
  let toBeAssumedSize ← read_uint32 host
  reallocate host toBeAssumedSize
  assumeSize toBeAssumedSize

/-- `initialize`, then `reallocate` on the NULL buffer. -/
def allocated (host : Host) (n : UInt32T) : MessageBuffer where
  buffer := (List.range n.toNat).map host.fresh
  bufferMaxSize := n
  bufferHasMyEndianness := true
  writeOffset := reservedBytes
  readOffset := reservedBytes

/-- `MessageBuffer(uint32_t bufferMaxSize)`. -/
def create (host : Host) (bufferMaxSize : UInt32T) : EStateM.Result Fault MessageBuffer Unit :=
  (do
    updateReservedBytes host
    copyInto 0 (List.replicate bufferMaxSize.toNat 0)) (allocated host bufferMaxSize)

/-! ## Receiving -/

/-- `SocketTCP::receive` of `n` bytes to `buffer + off`, from a peer that sends
`incoming` before it closes; what is left of it. -/
def receiveBytes (incoming : List Byte) (off n : UInt32T) : Access (List Byte) := do
  copyInto off (incoming.take n.toNat)
  if incoming.length < n.toNat then
    throw (.NetworkError "Connection closed by client.")
  return incoming.drop n.toNat

/-- `NetworkMessage::receive` up to the call of `deserialize`. -/
def receive (host : Host) (incoming : List Byte) : Access (List Byte) := do
  reset host
  let rest ← receiveBytes incoming 0 reservedBytes
  assumeSizeFromReservedBytes host
  receiveBytes rest reservedBytes ((← size) - reservedBytes)

/-! ## Sequences of typed reads and writes -/

/-- The element types of the arrays; a single element is an array of one. -/
inductive Scalar where
  | uint8 | int8 | char | uint16 | int16 | uint32 | int32 | float | uint64 | int64 | double
  deriving DecidableEq, Repr

def Scalar.width : Scalar → Nat
  | .uint8 | .int8 | .char => 1
  | .uint16 | .int16 => 2
  | .uint32 | .int32 | .float => 4
  | .uint64 | .int64 | .double => 8

@[reducible] def Scalar.bits : Scalar → Nat
  | .uint8 | .int8 | .char => 8
  | .uint16 | .int16 => 16
  | .uint32 | .int32 | .float => 32
  | .uint64 | .int64 | .double => 64

inductive Item where
  | scalars (t : Scalar) (data : List (BitVec t.bits))
  | bool (toggle : Bool)
  | string (str : List Byte)

/-- What a reader asks for. -/
inductive Request where
  | scalars (t : Scalar) (n : UInt32T)
  | bool
  | string
  deriving DecidableEq, Repr

def Item.request : Item → Request
  | .scalars t data => .scalars t (BitVec.ofNat 32 data.length)
  | .bool _ => .bool
  | .string _ => .string

/-- The bytes an item takes in a buffer. -/
def Item.size : Item → Nat
  | .scalars t data => t.width * data.length
  | .bool _ => 1
  | .string str => 4 + str.length

def writeScalars (host : Host) : (t : Scalar) → List (BitVec t.bits) → UInt32T → Access UInt32T
  | .uint8 => write_uint8s host
  | .int8 => write_int8s host
  | .char => write_chars host
  | .uint16 => write_uint16s host
  | .int16 => write_int16s host
  | .uint32 => write_uint32s host
  | .int32 => write_int32s host
  | .float => write_floats host
  | .uint64 => write_uint64s host
  | .int64 => write_int64s host
  | .double => write_doubles host

def readScalars (host : Host) : (t : Scalar) → UInt32T → Access (List (BitVec t.bits) × UInt32T)
  | .uint8 => read_uint8s
  | .int8 => read_int8s
  | .char => read_chars
  | .uint16 => read_uint16s host
  | .int16 => read_int16s host
  | .uint32 => read_uint32s host
  | .int32 => read_int32s host
  | .float => read_floats host
  | .uint64 => read_uint64s host
  | .int64 => read_int64s host
  | .double => read_doubles host

def write (host : Host) : Item → Access UInt32T
  | .scalars t data => writeScalars host t data (BitVec.ofNat 32 data.length)
  | .bool toggle => write_bool host toggle
  | .string str => write_string host str

def read (host : Host) : Request → Access Item
  | .scalars t n => do return .scalars t (← readScalars host t n).1
  | .bool => do return .bool (← read_bool)
  | .string => do return .string (← read_string host)

def writeAll (host : Host) : List Item → Access Unit
  | [] => pure ()
  | item :: rest => do
    let _ ← write host item
    writeAll host rest

def readAll (host : Host) : List Request → Access (List Item)
  | [] => pure []
  | request :: rest => do
    let item ← read host request
    let items ← readAll host rest
    return item :: items

end MessageBuffer

end Certi
