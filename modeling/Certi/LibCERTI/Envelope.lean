import Certi.LibHLA.RoundTrip

/-!
# The envelope of a message

`libCERTI/BasicMessage.cc`, `NetworkMessage_RW.cc` and `Extent.cc`: what every
message between RTIA and RTIG starts with, and the extents and regions that some
carry. A message is read into an object that may have held another one.
-/
namespace Certi.Envelope

open Bytes MessageBuffer

/-- What ends the passing of a message. -/
inductive Fault where
  | buffer (fault : MessageBuffer.Fault)
  | RTIinternalError (reason : String)
  | ArrayIndexOutOfBounds (reason : String)
  deriving DecidableEq, Repr

abbrev Passing := EStateM Fault MessageBuffer

/-- A call of the buffer. -/
def embed {α : Type} (access : Access α) : Passing α := fun b =>
  match access b with
  | .ok a b' => .ok a b'
  | .error e b' => .error (.buffer e) b'

/-- A write, whose offset nobody looks at. -/
def emit (access : Access UInt32T) : Passing Unit := embed (discard access)

/-! ## Extents -/

abbrev Range := BitVec 32 × BitVec 32

structure Extent where
  ranges : List Range
  deriving DecidableEq, Repr

namespace Extent

/-- The bounds of `Dimension`. -/
def wholeAxis : Range := (0, BitVec.allOnes 32)

/-- `Extent(const size_t n)`: a negative `n` is beyond every vector's maximum. -/
def ofSize (n : Int) : Passing Extent :=
  if n < 0 then throw (.buffer .lengthError) else pure ⟨List.replicate n.toNat wholeAxis⟩

def size (e : Extent) : Nat := e.ranges.length

/-- The range that a handle is for; they count from 1. -/
def range (e : Extent) : (handle : Nat) → Passing Range
  | 0 => throw (.ArrayIndexOutOfBounds "Invalid dimension handle")
  | i + 1 =>
    match e.ranges[i]? with
    | some range => pure range
    | none => throw (.ArrayIndexOutOfBounds "Invalid dimension handle")

def getRangeLowerBound (e : Extent) (handle : Nat) : Passing (BitVec 32) := do
  return (← e.range handle).1

def getRangeUpperBound (e : Extent) (handle : Nat) : Passing (BitVec 32) := do
  return (← e.range handle).2

def setRangeLowerBound (e : Extent) (handle : Nat) (val : BitVec 32) : Passing Extent := do
  let range ← e.range handle
  return ⟨e.ranges.set (handle - 1) (val, range.2)⟩

def setRangeUpperBound (e : Extent) (handle : Nat) (val : BitVec 32) : Passing Extent := do
  let range ← e.range handle
  return ⟨e.ranges.set (handle - 1) (range.1, val)⟩

end Extent

/-- The handles `1` to `n` of a loop over the dimensions. -/
def handles (n : Int) : List Nat := List.range' 1 n.toNat

/-! ## BasicMessage -/

structure BasicMessage where
  isDated : Bool
  date : BitVec 64
  isTagged : Bool
  tag : List Byte
  isLabelled : Bool
  label : List Byte
  extents : List Extent
  regions : List (BitVec 32)
  deriving DecidableEq, Repr

namespace BasicMessage

def setLabel (m : BasicMessage) (label : List Byte) : BasicMessage :=
  { m with
    isLabelled := true
    label := label }

def setTag (m : BasicMessage) (tag : List Byte) : BasicMessage :=
  { m with
    isTagged := true
    tag := tag }

/-- An optional part: its flag, and the part if there is one. -/
def serializeOptional (host : Host) (flag : Bool) (part : Passing Unit) : Passing Unit := do
  emit (write_bool host flag)
  if flag then part

def serialize (host : Host) (m : BasicMessage) : Passing Unit := do
  serializeOptional host m.isDated (emit (write_double host m.date))
  serializeOptional host m.isLabelled (emit (write_string host m.label))
  serializeOptional host m.isTagged (emit (write_string host m.tag))

def deserializeOptional {α : Type} (part : Passing α) : Passing (Option α) := do
  if ← embed read_bool then
    return some (← part)
  else
    return none

def assignDate (m : BasicMessage) : Option (BitVec 64) → BasicMessage
  | some date => { m with
    isDated := true
    date := date }
  | none => { m with isDated := false }

def assignLabel (m : BasicMessage) : Option (List Byte) → BasicMessage
  | some label => m.setLabel label
  | none => { m with isLabelled := false }

def assignTag (m : BasicMessage) : Option (List Byte) → BasicMessage
  | some tag => m.setTag tag
  | none => { m with isTagged := false }

def deserialize (host : Host) (m : BasicMessage) : Passing BasicMessage := do
  let date ← deserializeOptional (embed (read_double host))
  let label ← deserializeOptional (embed (read_string host))
  let tag ← deserializeOptional (embed (read_string host))
  return ((m.assignDate date).assignLabel label).assignTag tag

/-- The loops over the extents and their ranges; a bound is written by `bound`. -/
def writeBounds (bound : BitVec 32 → Passing Unit) (n : Int) (extents : List Extent) :
    Passing Unit :=
  extents.forM fun e => (handles n).forM fun h => do
    bound (← e.getRangeLowerBound h)
    bound (← e.getRangeUpperBound h)

/-- The loop over the ranges of an extent; a bound is read by `bound`. -/
def readBounds (bound : Passing (BitVec 32)) (n : Int) : Passing Extent := do
  let e ← Extent.ofSize n
  (handles n).foldlM (fun e h => do
    let e ← e.setRangeLowerBound h (← bound)
    e.setRangeUpperBound h (← bound)) e

/-- `std::vector::reserve`. -/
def reserve (n : Int) : Passing Unit :=
  if n < 0 then throw (.buffer .lengthError) else pure ()

/-- The body of a loop that runs `n` times. -/
def repeated {α : Type} (body : Passing α) : Nat → Passing (List α)
  | 0 => pure []
  | n + 1 => do
    let a ← body
    let rest ← repeated body n
    return a :: rest

/-- `serializeExtent`, up to the regions. -/
def serializeExtents (host : Host) (m : BasicMessage) : Passing Unit := do
  emit (write_int32 host (BitVec.ofNat 32 m.extents.length))
  match m.extents with
  | [] => pure ()
  | first :: _ =>
    let n := BitVec.ofNat 32 first.size
    emit (write_int32 host n)
    writeBounds (fun bound => emit (write_int32 host bound)) n.toInt m.extents

def serializeExtent (host : Host) (m : BasicMessage) : Passing Unit := do
  m.serializeExtents host
  let n := BitVec.ofNat 32 m.regions.length
  emit (write_int32 host n)
  (m.regions.take n.toInt.toNat).forM fun region => emit (write_int32 host region)

/-- Extents, after their number was read. -/
def readCounted (count : Passing Int) (bound : Passing (BitVec 32)) (nb_extents : Int) :
    Passing (List Extent) := do
  if 0 < nb_extents then
    let nb_dimensions ← count
    repeated (readBounds bound nb_dimensions) nb_extents.toNat
  else
    return []

def readInt32 (host : Host) : Passing Int := do
  return (← embed (read_int32 host)).toInt

def readInt64 (host : Host) : Passing Int := do
  return (← embed (read_int64 host)).toInt

def deserializeExtent (host : Host) (m : BasicMessage) : Passing BasicMessage := do
  let nb_extents ← readInt32 host
  let extents ← readCounted (readInt32 host) (embed (read_int32 host)) nb_extents
  let n ← readInt32 host
  reserve n
  let regions ← repeated (embed (read_int32 host)) n.toNat
  return { m with
    extents := extents
    regions := regions }

def writeExtents (host : Host) (m : BasicMessage) : Passing Unit := do
  emit (write_int64 host (BitVec.ofNat 64 m.extents.length))
  match m.extents with
  | [] => pure ()
  | first :: _ =>
    let n := BitVec.ofNat 32 first.size
    emit (write_int64 host (n.signExtend 64))
    writeBounds (fun bound => emit (write_int64 host (bound.setWidth 64))) n.toInt m.extents

/-- A 64-bit integer that is taken for a bound or a region. -/
def readNarrowed (host : Host) : Passing (BitVec 32) := do
  return (← embed (read_int64 host)).setWidth 32

def readExtents (host : Host) (m : BasicMessage) : Passing BasicMessage := do
  let nb_extents ← readInt64 host
  let extents ← readCounted (readInt64 host) (readNarrowed host) nb_extents
  return { m with extents := extents }

def writeRegions (host : Host) (m : BasicMessage) : Passing Unit := do
  emit (write_int64 host (BitVec.ofNat 64 m.regions.length))
  m.regions.forM fun region => emit (write_int64 host (region.setWidth 64))

def readRegions (host : Host) (m : BasicMessage) : Passing BasicMessage := do
  let n ← readInt64 host
  reserve n
  let regions ← repeated (readNarrowed host) n.toNat
  return { m with regions := regions }

end BasicMessage

/-! ## NetworkMessage -/

/-- `NetworkMessage::Type::NOT_USED`. -/
def NOT_USED : BitVec 32 := 0

/-- `NetworkMessage::Type::LAST`. -/
def LAST : BitVec 32 := 104

/-- `Exception::Type::NO_EXCEPTION`. -/
def NO_EXCEPTION : BitVec 8 := 0

structure NetworkMessage extends BasicMessage where
  type : BitVec 32
  federate : BitVec 32
  federation : BitVec 32
  exception : BitVec 8
  exceptionReason : List Byte
  deriving DecidableEq, Repr

namespace NetworkMessage

def serialize (host : Host) (m : NetworkMessage) : Passing Unit :=
  if m.type = NOT_USED ∨ m.type = LAST then
    throw (.RTIinternalError "Invalid network type (not a valid type);")
  else do
    emit (write_int32 host m.type)
    emit (write_uint32 host m.federate)
    emit (write_uint32 host m.federation)
    emit (write_int32 host (m.exception.setWidth 32))
    if m.exception ≠ NO_EXCEPTION then
      emit (write_string host m.exceptionReason)
    else
      m.toBasicMessage.serialize host

def deserialize (host : Host) (m : NetworkMessage) : Passing NetworkMessage := do
  let type ← embed (read_int32 host)
  let federate ← embed (read_uint32 host)
  let federation ← embed (read_uint32 host)
  let exception := (← embed (read_int32 host)).setWidth 8
  let m := { m with
    type := type
    federate := federate
    federation := federation
    exception := exception }
  if exception ≠ NO_EXCEPTION then do
    let exceptionReason ← embed (read_string host)
    return { m with exceptionReason := exceptionReason }
  else do
    let basic ← m.toBasicMessage.deserialize host
    return { m with toBasicMessage := basic }

end NetworkMessage

/-! ## A message on its way -/

/-- What a message carries behind its header. -/
inductive Format where
  | header | extent | extents | regions | extentsRegions
  deriving DecidableEq, Repr

def Format.serialize (host : Host) (m : NetworkMessage) : Format → Passing Unit
  | .header => m.serialize host
  | .extent => do
    m.serialize host
    m.serializeExtent host
  | .extents => do
    m.serialize host
    m.writeExtents host
  | .regions => do
    m.serialize host
    m.writeRegions host
  | .extentsRegions => do
    m.serialize host
    m.writeExtents host
    m.writeRegions host

def Format.deserialize (host : Host) (m : NetworkMessage) : Format → Passing NetworkMessage
  | .header => m.deserialize host
  | .extent => do
    let m ← m.deserialize host
    return { m with toBasicMessage := ← m.deserializeExtent host }
  | .extents => do
    let m ← m.deserialize host
    return { m with toBasicMessage := ← m.readExtents host }
  | .regions => do
    let m ← m.deserialize host
    return { m with toBasicMessage := ← m.readRegions host }
  | .extentsRegions => do
    let m ← m.deserialize host
    let m := { m with toBasicMessage := ← m.readExtents host }
    return { m with toBasicMessage := ← m.readRegions host }

/-- `NetworkMessage::send`: the bytes that go to the socket. -/
def send (host : Host) (format : Format) (m : NetworkMessage) : Passing (List Byte) := do
  embed (reset host)
  format.serialize host m
  embed (updateReservedBytes host)
  embed (do copyFrom 0 (← MessageBuffer.size))

/-- `NetworkMessage::receive`, into a message object that is there. -/
def receive (host : Host) (format : Format) (old : NetworkMessage) (incoming : List Byte) :
    Passing (NetworkMessage × List Byte) := do
  let more ← embed (MessageBuffer.receive host incoming)
  let got ← format.deserialize host old
  return (got, more)

end Certi.Envelope
