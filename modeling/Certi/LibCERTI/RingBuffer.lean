import Certi.Lib.Bytes
import Certi.Lib.Runs

/-!
# RingBuffer

Two processes send each other bytes through two shared segments, one for each
direction. A segment comes with three numbers: how many bytes are free, where
the next byte is written and where the next one is read. `Send` and `Receive`
hold the semaphore of the direction from beginning to end. The indices count
bytes, but the address of index `i` is `sizeof(void*) * i` bytes behind the
start of the segment.
-/
namespace Certi

open Bytes

/-- The conversion to `int`. -/
def toInt (x : Int) : Int := x.bmod (2 ^ 32)

/-- The conversion to `size_t`. -/
def toSize (x : Int) : Nat := (x % 2 ^ 64).toNat

/-- `sizeof(void*)` where addresses have 64 bits. -/
def sizeofPointer : Nat := 8

/-- `memcpy`, which may read and write inside the two blocks only; nothing is accessed when
nothing is copied. -/
def memcpy (source : List Byte) (off n : Nat) (target : List Byte) (off' : Nat) :
    Option (List Byte) :=
  if n = 0 then some target else (load source off n).bind (store target off')

inductive RingException where
  | messageTooLong | bufferFull | bufferEmpty
  deriving DecidableEq, Repr

/-- How a call ends; a fault is an access outside the blocks or a division by zero. -/
inductive Attempt (α : Type) where
  | done (result : α)
  | throws (e : RingException)
  | faults
  deriving DecidableEq, Repr

def Attempt.of {α : Type} : Option α → Attempt α
  | some result => .done result
  | none => .faults

/-- One direction: the segment and the numbers `_Tab` that are kept with it. -/
structure Ring where
  size : Nat
  count : Int
  write : Int
  read : Int
  shm : List Byte
  deriving DecidableEq, Repr

namespace Ring

variable (ring : Ring)

/-- `index % _Size`. -/
def wrapped (index : Int) : Option Int :=
  if ring.size = 0 then none else some (toInt ↑(toSize index % ring.size))

/-- The copy of `Send` with one `memcpy`. -/
def sendSimple (buffer : List Byte) : Option Ring := do
  let shm ← memcpy buffer 0 buffer.length ring.shm (toSize (sizeofPointer * ring.write))
  let write ← ring.wrapped (ring.write + buffer.length)
  return { ring with
    count := toInt (ring.count - buffer.length)
    write := write
    shm := shm }

/-- The copy of `Send` with two of them. -/
def sendDouble (buffer : List Byte) : Option Ring := do
  let rest := toInt (ring.size - ring.write)
  let first ← memcpy buffer 0 (toSize rest) ring.shm (toSize (sizeofPointer * ring.write))
  let shm ← memcpy buffer (toSize (sizeofPointer * rest)) (toSize (buffer.length - rest)) first 0
  let write ← ring.wrapped (ring.write + buffer.length)
  return { ring with
    count := toInt (ring.count - buffer.length)
    write := write
    shm := shm }

/-- `Send`, with a buffer of the size that the caller passes. -/
def send (buffer : List Byte) : Attempt Ring :=
  if buffer.length > ring.size then .throws .messageTooLong
  else if toInt buffer.length > ring.count then .throws .bufferFull
  else if ring.read > ring.write ∨
      ring.write ≥ ring.read ∧ toSize (buffer.length + ring.write) ≤ ring.size then
    .of (ring.sendSimple buffer)
  else .of (ring.sendDouble buffer)

/-- The copy of `Receive` with one `memcpy`; the index is not wrapped. -/
def receiveSimple (buffer : List Byte) : Option (Ring × List Byte) := do
  let received ← memcpy ring.shm (toSize (sizeofPointer * ring.read)) buffer.length buffer 0
  return ({ ring with
    count := toInt (ring.count + buffer.length)
    read := toInt (ring.read + buffer.length) }, received)

def receiveDouble (buffer : List Byte) : Option (Ring × List Byte) := do
  let rest := toInt (ring.size - ring.read)
  let first ← memcpy ring.shm (toSize (sizeofPointer * ring.read)) (toSize rest) buffer 0
  let received ← memcpy ring.shm 0 (toSize (buffer.length - rest)) first
    (toSize (sizeofPointer * rest))
  let read ← ring.wrapped (ring.read + buffer.length)
  return ({ ring with
    count := toInt (ring.count + buffer.length)
    read := read }, received)

/-- `Receive` into a buffer of the size that the caller passes, whatever is in it. -/
def receive (buffer : List Byte) : Attempt (Ring × List Byte) :=
  if buffer.length > ring.size then .throws .messageTooLong
  else if ring.count = toInt ring.size then .throws .bufferEmpty
  else if ring.write > ring.read ∨
      ring.read ≥ ring.write ∧ toSize (buffer.length + ring.read) ≤ ring.size then
    .of (ring.receiveSimple buffer)
  else .of (ring.receiveDouble buffer)

/-- The numbers that `Attach` stores, with whatever the new segment holds. -/
def create (size : Nat) (memory : Nat → Byte) : Ring :=
  { size := size
    count := toInt size
    write := 0
    read := 0
    shm := (List.range size).map memory }

end Ring

/-- `BUFFER_SC` is the server. -/
inductive Side where
  | sc | cs
  deriving DecidableEq, Repr

def Side.other : Side → Side
  | .sc => .cs
  | .cs => .sc

/-- The ring of each side is the one it sends through. -/
structure RingBuffer where
  ring : Side → Ring
  /-- A call has faulted. -/
  ended : Bool

inductive RingCall where
  | send (side : Side) (buffer : List Byte)
  | receive (side : Side) (buffer : List Byte)
  deriving DecidableEq, Repr

inductive RingAnswer where
  | sent
  | received (bytes : List Byte)
  | threw (e : RingException)
  | faulted
  deriving DecidableEq, Repr

namespace RingBuffer

variable (s : RingBuffer)

def setRing (side : Side) (ring : Ring) : RingBuffer :=
  { s with ring := fun d => if d = side then ring else s.ring d }

def create (size : Nat) (memory : Side → Nat → Byte) : RingBuffer :=
  { ring := fun side => .create size (memory side)
    ended := false }

/-- `Send` of one side. -/
def Send (side : Side) (buffer : List Byte) : RingBuffer × RingAnswer :=
  match (s.ring side).send buffer with
  | .done ring => (s.setRing side ring, .sent)
  | .throws e => (s, .threw e)
  | .faults => ({ s with ended := true }, .faulted)

/-- `Receive` of one side, through the ring of the other. -/
def Receive (side : Side) (buffer : List Byte) : RingBuffer × RingAnswer :=
  match (s.ring side.other).receive buffer with
  | .done (ring, bytes) => (s.setRing side.other ring, .received bytes)
  | .throws e => (s, .threw e)
  | .faults => ({ s with ended := true }, .faulted)

end RingBuffer

/-- The calls of both sides in the order in which they get their semaphore. -/
def ringBuffer : Runs.Machine RingBuffer RingCall RingAnswer := fun s call =>
  if s.ended then (s, .faulted)
  else
    match call with
    | .send side buffer => s.Send side buffer
    | .receive side buffer => s.Receive side buffer

end Certi
