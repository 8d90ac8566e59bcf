import Certi.LibHLA.MessageBuffer

/-!
# MsgBuffer

The copy of `MessageBuffer` for C programs. Where the two texts are the same up
to the names, the function is that of `MessageBuffer`, on memory that `calloc`
clears. A rejected access prints a line and exits the process.
-/
namespace Certi.MsgBuffer

open Bytes MessageBuffer

/-- `MsgBuffer_t` has the fields of `MessageBuffer`; its `bool_t` is only set to 0 and 1. -/
abbrev MsgBuffer_t := MessageBuffer

inductive Stop where
  -- `exit(EXIT_FAILURE)`, after this line on `stderr`
  | exit (stderr : String)
  | outOfBounds
  deriving DecidableEq, Repr

abbrev Call := EStateM Stop MsgBuffer_t

/-- A piece with the text of `MessageBuffer`, in which nothing is rejected. -/
def shared {α : Type} (piece : MessageBuffer.Access α) : Call α := fun msg =>
  match piece msg with
  | .ok a msg' => .ok a msg'
  | .error _ msg' => .error .outOfBounds msg'

/-- Memory comes from `calloc`. -/
def calloc (host : Host) : Host := { host with fresh := fun _ => 0 }

def MB_error {α : Type} (funName : String) (sz acsz : UInt32T) : Call α := do
  let msg ← get
  throw (.exit (funName ++ "::invalid access of size <" ++ toString sz.toInt ++
    "> inside a buffer of accessible size <" ++ toString acsz.toInt ++ "> (writeOffset=" ++
    toString msg.writeOffset.toInt ++ ",readOffset=" ++ toString msg.readOffset.toInt ++ ")\n"))

/-! ## Writing -/

def MB_write_uint8s (host : Host) (data : List Byte) (n : UInt32T) : Call UInt32T :=
  shared (write_uint8s (calloc host) data n)

def MB_write_uint16s (host : Host) (data : List (BitVec 16)) (n : UInt32T) : Call UInt32T :=
  shared (write_uint16s (calloc host) data n)

def MB_write_uint32s (host : Host) (data : List (BitVec 32)) (n : UInt32T) : Call UInt32T :=
  shared (write_uint32s (calloc host) data n)

def MB_write_uint64s (host : Host) (data : List (BitVec 64)) (n : UInt32T) : Call UInt32T :=
  shared (write_uint64s (calloc host) data n)

def MB_write_int8s (host : Host) (data : List Byte) (n : UInt32T) : Call UInt32T :=
  MB_write_uint8s host data n

def MB_write_chars (host : Host) (data : List Byte) (n : UInt32T) : Call UInt32T :=
  MB_write_uint8s host data n

def MB_write_int16s (host : Host) (data : List (BitVec 16)) (n : UInt32T) : Call UInt32T :=
  MB_write_uint16s host data n

def MB_write_int32s (host : Host) (data : List (BitVec 32)) (n : UInt32T) : Call UInt32T :=
  MB_write_uint32s host data n

def MB_write_floats (host : Host) (data : List (BitVec 32)) (n : UInt32T) : Call UInt32T :=
  MB_write_uint32s host data n

def MB_write_int64s (host : Host) (data : List (BitVec 64)) (n : UInt32T) : Call UInt32T :=
  MB_write_uint64s host data n

def MB_write_doubles (host : Host) (data : List (BitVec 64)) (n : UInt32T) : Call UInt32T :=
  MB_write_uint64s host data n

def MB_write_uint8 (host : Host) (data : Byte) : Call UInt32T := MB_write_uint8s host [data] 1

def MB_write_int32 (host : Host) (data : BitVec 32) : Call UInt32T :=
  MB_write_int32s host [data] 1

def MB_write_bool (host : Host) (toggle : Byte) : Call UInt32T :=
  if toggle ≠ 0 then MB_write_uint8 host 1 else MB_write_uint8 host 0

/-- What a C program takes the characters behind a pointer for. -/
def cString (str : List Byte) : List Byte := str.takeWhile (· ≠ 0)

/-- `strlen` of the memory behind a pointer. -/
def strlen (str : List Byte) : Call Nat :=
  if 0 ∈ str then pure (cString str).length else throw .outOfBounds

def MB_write_string (host : Host) (str : List Byte) : Call UInt32T := do
  let _ ← MB_write_int32 host (BitVec.ofNat 32 (← strlen str))
  MB_write_chars host str (BitVec.ofNat 32 (← strlen str))

/-! ## Reading -/

def MB_read_uint8s (n : UInt32T) : Call (List Byte × UInt32T) := do
  let msg ← get
  if msg.writeOffset < n + msg.readOffset then
    MB_error "MB_read_uint8s" n (msg.writeOffset - msg.readOffset)
  shared do
    let data ← take n
    return (data, (← get).readOffset - n)

/-- The reads of several bytes an element: `swapped` is the body of their loop. -/
def readWords {bits : Nat} (host : Host) (name : String) (w : Nat)
    (swapped : Access (BitVec bits)) (n : UInt32T) : Call (List (BitVec bits) × UInt32T) := do
  let msg ← get
  let bytes := BitVec.ofNat 32 w * n
  if msg.writeOffset < bytes + msg.readOffset then
    MB_error name n (msg.writeOffset - msg.readOffset)
  shared do
    let data ←
      if msg.bufferHasMyEndianness then do
        let copied ← take bytes
        pure (elements w (word host.order bits) (bytes.toNat / w) copied)
      else
        times swapped n.toNat
    return (data, (← get).readOffset - bytes)

def MB_read_uint16s (host : Host) (n : UInt32T) : Call (List (BitVec 16) × UInt32T) :=
  readWords host "MB_read_uint16s" 2 (do
    let bytes ← take 2
    return LIBHLA_UINT16_SWAP_BYTES (word host.order 16 bytes)) n

def MB_read_uint32s (host : Host) (n : UInt32T) : Call (List (BitVec 32) × UInt32T) :=
  readWords host "MB_read_uint32s" 4 (do
    let bytes ← take 4
    return LIBHLA_UINT32_SWAP_BYTES (word host.order 32 bytes)) n

def MB_read_uint64s (host : Host) (n : UInt32T) : Call (List (BitVec 64) × UInt32T) :=
  readWords host "read_uint64s" 8 (do
    let second ← take 4
    let first ← take 4
    return ui64 host (LIBHLA_UINT32_SWAP_BYTES (word host.order 32 first))
      (LIBHLA_UINT32_SWAP_BYTES (word host.order 32 second))) n

def MB_read_int8s (n : UInt32T) : Call (List Byte × UInt32T) := MB_read_uint8s n

def MB_read_chars (n : UInt32T) : Call (List Byte × UInt32T) := MB_read_uint8s n

def MB_read_int16s (host : Host) (n : UInt32T) : Call (List (BitVec 16) × UInt32T) :=
  MB_read_uint16s host n

def MB_read_int32s (host : Host) (n : UInt32T) : Call (List (BitVec 32) × UInt32T) :=
  MB_read_uint32s host n

def MB_read_floats (host : Host) (n : UInt32T) : Call (List (BitVec 32) × UInt32T) :=
  MB_read_uint32s host n

def MB_read_int64s (host : Host) (n : UInt32T) : Call (List (BitVec 64) × UInt32T) :=
  MB_read_uint64s host n

def MB_read_doubles (host : Host) (n : UInt32T) : Call (List (BitVec 64) × UInt32T) :=
  MB_read_uint64s host n

/-- What the caller's variable holds after a read of one element into it. -/
def retval {bits : Nat} (read : Call (List (BitVec bits) × UInt32T)) : Call (BitVec bits) := do
  return (← read).1.headD 0

def MB_read_uint8 : Call Byte := retval (MB_read_uint8s 1)

def MB_get_int32 (host : Host) : Call (BitVec 32) := retval (MB_read_int32s host 1)

def MB_read_bool : Call Byte := MB_read_uint8

/-- `strncpy(str, buffer + off, len)`: the characters before a NUL, then NULs. A negative
`len` becomes a `size_t` beyond all storage. -/
def strncpy (off : UInt32T) (len : BitVec 32) : Call (List Byte) := do
  if len.toInt < 0 then throw .outOfBounds
  let front := ((← get).buffer.drop off.toNat).take len.toNat
  -- no NUL stops the copy before the end of the block
  if front.length < len.toNat ∧ 0 ∉ front then throw .outOfBounds
  return cString front ++ List.replicate (len.toNat - (cString front).length) 0

/-- The characters put into a storage of `slen`, the terminator included. `slen > len`
compares a `uint32_t` with an `int32_t`. -/
def MB_read_string (host : Host) (slen : UInt32T) : Call (List Byte) := do
  let len ← MB_get_int32 host
  let msg ← get
  if msg.writeOffset < len + msg.readOffset then
    MB_error "MB_read_string" len (msg.writeOffset - msg.readOffset)
  if len < slen then
    let str ← strncpy msg.readOffset len
    modify fun msg => { msg with readOffset := msg.readOffset + len }
    return str ++ [0]
  else
    MB_error "MB_read_string NOT enough output storage" len slen

/-! ## The reserved bytes -/

def MB_updateReservedBytes (host : Host) : Call Unit :=
  shared (updateReservedBytes (calloc host))

def MB_assumeBufferIsBigEndian (host : Host) : Call Unit :=
  shared (assumeBufferIsBigEndian (calloc host))

def MB_assumeBufferIsLittleEndian (host : Host) : Call Unit :=
  shared (assumeBufferIsLittleEndian (calloc host))

/-- Unlike the constructor of `MessageBuffer`, this clears all that was allocated: the
reserved bytes may have needed more than was asked for. -/
def MB_createWithSize (host : Host) (bufferMaxSize : UInt32T) :
    EStateM.Result Stop MsgBuffer_t Unit :=
  (do
    MB_updateReservedBytes host
    let msg ← get
    shared (copyInto 0 (List.replicate msg.bufferMaxSize.toNat 0)) : Call Unit)
    (allocated (calloc host) bufferMaxSize)

/-! ## Sequences of typed reads and writes -/

/-- A value as both copies have it: a `bool_t` is a byte, and a string's characters may
hold NULs, as a `std::string`'s do. -/
inductive Datum where
  | scalars (t : Scalar) (data : List (BitVec t.bits))
  | bool (toggle : Byte)
  | string (str : List Byte)

/-- The value in C++: a byte is converted to `bool` by comparing it with 0. -/
def Datum.item : Datum → Item
  | .scalars t data => .scalars t data
  | .bool toggle => .bool (toggle != 0)
  | .string str => .string str

/-- What a reader asks for; a string is read into a storage. -/
inductive Ask where
  | scalars (t : Scalar) (n : UInt32T)
  | bool
  | string (slen : UInt32T)
  deriving DecidableEq, Repr

def Ask.request : Ask → Request
  | .scalars t n => .scalars t n
  | .bool => .bool
  | .string _ => .string

def MB_writeScalars (host : Host) : (t : Scalar) → List (BitVec t.bits) → UInt32T → Call UInt32T
  | .uint8 => MB_write_uint8s host
  | .int8 => MB_write_int8s host
  | .char => MB_write_chars host
  | .uint16 => MB_write_uint16s host
  | .int16 => MB_write_int16s host
  | .uint32 => MB_write_uint32s host
  | .int32 => MB_write_int32s host
  | .float => MB_write_floats host
  | .uint64 => MB_write_uint64s host
  | .int64 => MB_write_int64s host
  | .double => MB_write_doubles host

def MB_readScalars (host : Host) : (t : Scalar) → UInt32T → Call (List (BitVec t.bits) × UInt32T)
  | .uint8 => MB_read_uint8s
  | .int8 => MB_read_int8s
  | .char => MB_read_chars
  | .uint16 => MB_read_uint16s host
  | .int16 => MB_read_int16s host
  | .uint32 => MB_read_uint32s host
  | .int32 => MB_read_int32s host
  | .float => MB_read_floats host
  | .uint64 => MB_read_uint64s host
  | .int64 => MB_read_int64s host
  | .double => MB_read_doubles host

/-- A string is handed over by its `c_str()`, which a NUL follows. -/
def MB_write (host : Host) : Datum → Call UInt32T
  | .scalars t data => MB_writeScalars host t data (BitVec.ofNat 32 data.length)
  | .bool toggle => MB_write_bool host toggle
  | .string str => MB_write_string host (str ++ [0])

def MB_read (host : Host) : Ask → Call Datum
  | .scalars t n => do return .scalars t (← MB_readScalars host t n).1
  | .bool => do return .bool (← MB_read_bool)
  | .string slen => do return .string (cString (← MB_read_string host slen))

def MB_writeAll (host : Host) : List Datum → Call Unit
  | [] => pure ()
  | datum :: rest => do
    let _ ← MB_write host datum
    MB_writeAll host rest

def MB_assume (host : Host) : Option Order → Call Unit
  | none => pure ()
  | some .big => MB_assumeBufferIsBigEndian host
  | some .little => MB_assumeBufferIsLittleEndian host

end Certi.MsgBuffer
