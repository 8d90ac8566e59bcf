import Certi.LibHLA.Bounds
import Certi.RTIG.MomArguments

/-!
# The values the MOM encodes

The encoders of `RTIG/Mom.cc` write to the MOM's buffer: the length of the value,
computed ahead, then the value. `encodeMB` reads the length and as many octets
behind it. The decoders are those of the interactions' arguments.
-/
namespace Certi.MOM

open Bytes MessageBuffer Throwing

/-! ## The encoders -/

/-- `read_bytes` is `read_chars`. -/
def encodeMB (host : Host) : Access ParameterValue := do
  let size ← read_uint32 host
  return (← read_chars size).1

/-- A loop over a collection whose body writes. -/
def writeEach {α : Type} (body : α → Access Unit) : List α → Access Unit
  | [] => pure ()
  | x :: rest => do
    body x
    writeEach body rest

def encodeString (host : Host) (str : List Byte) : Access ParameterValue := do
  reset host
  let _ ← write_uint32 host (BitVec.ofNat 32 (4 + str.length))
  let _ ← write_string host str
  encodeMB host

/-- The octets behind a string whose length is not a multiple of four. -/
def paddingSize (str : List Byte) : Nat :=
  let remainder := str.length % 4
  if remainder = 0 then 0 else 4 - remainder

def overallSize (strs : List (List Byte)) : Nat :=
  strs.foldl (fun size str => size + 4 + (str.length + paddingSize str)) 4

def encodeStringList (host : Host) (strs : List (List Byte)) : Access ParameterValue := do
  reset host
  let _ ← write_uint32 host (BitVec.ofNat 32 (overallSize strs))
  let _ ← write_uint32 host (BitVec.ofNat 32 strs.length)
  writeEach (fun str => do
    let _ ← write_string host str
    if str.length % 4 ≠ 0 then
      writeEach (fun c => do let _ ← write_chars host [c] 1)
        (List.replicate (4 - str.length % 4) 0)) strs
  encodeMB host

def encodeUInt32 (host : Host) (data : UInt32T) : Access ParameterValue := do
  reset host
  let _ ← write_uint32 host 4
  let _ ← write_uint32 host data
  encodeMB host

def encodeBoolean (host : Host) (data : Bool) : Access ParameterValue :=
  encodeUInt32 host (if data then 1 else 0)

inductive RtiVersion where
  | HLA_1_3
  | IEEE_1516_2000
  | IEEE_1516_2010
  deriving DecidableEq, Repr

/-- The octets of a text in ASCII. -/
def ascii (text : String) : List Byte := text.toList.map fun c => BitVec.ofNat 8 c.toNat

def encodeVersion (host : Host) : RtiVersion → Access ParameterValue
  | .IEEE_1516_2000 => encodeString host (ascii "ieee 1516-2000")
  | .IEEE_1516_2010 => encodeString host (ascii "ieee 1516-2010")
  | .HLA_1_3 => encodeString host (ascii "hla 1.3")

/-- `time` is the date as a double. -/
def encodeTime (host : Host) (time : BitVec 64) : Access ParameterValue := do
  reset host
  let _ ← write_uint32 host 8
  let _ ← write_double host time
  encodeMB host

/-- `std::to_string` of a character, which is signed. -/
def decimal (c : Byte) : List Byte := ascii (toString c.toInt)

/-- The four octets of the address in the host's order, with dots between them. -/
def encodeIp (host : Host) (ip : UInt32T) : Access ParameterValue := do
  reset host
  let _ ← write_uint32 host ip
  let first ← retval (read_chars 1)
  let second ← retval (read_chars 1)
  let third ← retval (read_chars 1)
  let fourth ← retval (read_chars 1)
  encodeString host (decimal first ++ ascii "." ++ decimal second ++ ascii "." ++ decimal third ++
    ascii "." ++ decimal fourth)

/-- `encodeFederateHandleList`, given the federates, and `encodeVectorHandle`. -/
def encodeVectorHandle (host : Host) (data : List UInt32T) : Access ParameterValue := do
  reset host
  let _ ← write_uint32 host (BitVec.ofNat 32 (4 * (1 + data.length)))
  let _ ← write_uint32 host (BitVec.ofNat 32 data.length)
  writeEach (fun handle => do let _ ← write_uint32 host handle) data
  encodeMB host

def encodeFederateHandleList (host : Host) (my_federates : List UInt32T) : Access ParameterValue :=
  encodeVectorHandle host my_federates

def encodeFederateState (host : Host) (isSaving isRestoring : Bool) : Access ParameterValue :=
  if isSaving then encodeUInt32 host 3
  else if isRestoring then encodeUInt32 host 5
  else encodeUInt32 host 1

def encodeHandleBasedCounts (host : Host) (data : List (UInt32T × UInt32T)) :
    Access ParameterValue := do
  reset host
  let _ ← write_uint32 host (BitVec.ofNat 32 (4 * (1 + data.length * 2)))
  let _ ← write_uint32 host (BitVec.ofNat 32 data.length)
  writeEach (fun pair => do
    let _ ← write_uint32 host pair.1
    let _ ← write_uint32 host pair.2) data
  encodeMB host

def encodeVectorString (host : Host) (data : List (List Byte)) : Access ParameterValue := do
  reset host
  let _ ← write_uint32 host (BitVec.ofNat 32
    (4 * (1 + data.length) + data.foldl (fun size str => size + str.length) 0))
  let _ ← write_uint32 host (BitVec.ofNat 32 data.length)
  writeEach (fun str => do let _ ← write_string host str) data
  encodeMB host

/-- What the encoders are given. -/
inductive Value where
  | string (str : List Byte)
  | stringList (strs : List (List Byte))
  | boolean (data : Bool)
  | uint32 (data : UInt32T)
  | version (v : RtiVersion)
  | time (t : BitVec 64)
  | ip (address : UInt32T)
  | federateHandleList (my_federates : List UInt32T)
  | federateState (isSaving isRestoring : Bool)
  | vectorHandle (data : List UInt32T)
  | handleBasedCounts (data : List (UInt32T × UInt32T))
  | vectorString (data : List (List Byte))

def encode (host : Host) : Value → Access ParameterValue
  | .string str => encodeString host str
  | .stringList strs => encodeStringList host strs
  | .boolean data => encodeBoolean host data
  | .uint32 data => encodeUInt32 host data
  | .version v => encodeVersion host v
  | .time t => encodeTime host t
  | .ip address => encodeIp host address
  | .federateHandleList my_federates => encodeFederateHandleList host my_federates
  | .federateState isSaving isRestoring => encodeFederateState host isSaving isRestoring
  | .vectorHandle data => encodeVectorHandle host data
  | .handleBasedCounts data => encodeHandleBasedCounts host data
  | .vectorString data => encodeVectorString host data

/-! ## What is written -/

/-- The octets of an address as they are written. -/
def ipText (host : Host) (ip : UInt32T) : List Byte :=
  List.intercalate (ascii ".") ((word32 host ip).map decimal)

def versionText : RtiVersion → List Byte
  | .IEEE_1516_2000 => ascii "ieee 1516-2000"
  | .IEEE_1516_2010 => ascii "ieee 1516-2010"
  | .HLA_1_3 => ascii "hla 1.3"

def uint32Item (n : UInt32T) : Item := .scalars .uint32 [n]

def countItem (n : Nat) : Item := uint32Item (BitVec.ofNat 32 n)

def doubleItem (x : BitVec 64) : Item := .scalars .double [x]

def charItem (c : Byte) : Item := .scalars .char [c]

/-- The typed writes behind the length. -/
def Value.items (host : Host) : Value → List Item
  | .string str => [.string str]
  | .stringList strs => countItem strs.length ::
      strs.flatMap fun str => .string str :: (List.replicate (paddingSize str) 0).map charItem
  | .boolean data => [uint32Item (if data then 1 else 0)]
  | .uint32 data => [uint32Item data]
  | .version v => [.string (versionText v)]
  | .time t => [doubleItem t]
  | .ip address => [.string (ipText host address)]
  | .federateHandleList my_federates => countItem my_federates.length :: my_federates.map uint32Item
  | .federateState isSaving isRestoring =>
    [uint32Item (if isSaving then 3 else if isRestoring then 5 else 1)]
  | .vectorHandle data => countItem data.length :: data.map uint32Item
  | .handleBasedCounts data =>
    countItem data.length :: data.flatMap fun pair => [uint32Item pair.1, uint32Item pair.2]
  | .vectorString data => countItem data.length :: data.map .string

/-- An encoder that writes a length and the items. -/
def encodeItems (host : Host) (items : List Item) : Access ParameterValue := do
  reset host
  writeAll host (countItem (totalSize items) :: items)
  encodeMB host

theorem writeAll_append (host : Host) (items more : List Item) :
    writeAll host (items ++ more) = (do writeAll host items; writeAll host more) := by
  induction items with
  | nil => simp [writeAll]
  | cons item rest ih => simp [writeAll, ih]

/-- A loop whose body makes typed writes. -/
theorem writeEach_items {α : Type} {host : Host} {body : α → Access Unit} {items : α → List Item}
    (each : ∀ x, body x = writeAll host (items x)) (xs : List α) :
    writeEach body xs = writeAll host (xs.flatMap items) := by
  induction xs with
  | nil => simp [writeEach, writeAll]
  | cons x rest ih => rw [writeEach, each, ih, List.flatMap_cons, writeAll_append]

@[simp] theorem write_uint32Item (host : Host) (n : UInt32T) :
    write host (uint32Item n) = write_uint32 host n := rfl

@[simp] theorem write_countItem (host : Host) (n : Nat) :
    write host (countItem n) = write_uint32 host (BitVec.ofNat 32 n) := rfl

@[simp] theorem size_uint32Item (n : UInt32T) : (uint32Item n).size = 4 := rfl

@[simp] theorem size_countItem (n : Nat) : (countItem n).size = 4 := rfl

@[simp] theorem write_stringItem (host : Host) (str : List Byte) :
    write host (.string str) = write_string host str := rfl

@[simp] theorem write_doubleItem (host : Host) (x : BitVec 64) :
    write host (doubleItem x) = write_double host x := rfl

@[simp] theorem write_charItem (host : Host) (c : Byte) :
    write host (charItem c) = write_chars host [c] 1 := rfl

@[simp] theorem size_doubleItem (x : BitVec 64) : (doubleItem x).size = 8 := rfl

@[simp] theorem size_charItem (c : Byte) : (charItem c).size = 1 := rfl

@[simp] theorem totalSize_nil : totalSize [] = 0 := rfl

@[simp] theorem totalSize_cons (item : Item) (rest : List Item) :
    totalSize (item :: rest) = item.size + totalSize rest := by
  simp [totalSize]

@[simp] theorem totalSize_append (items more : List Item) :
    totalSize (items ++ more) = totalSize items + totalSize more := by
  simp [totalSize]

/-- The items of a collection, when every element has its size. -/
theorem totalSize_flatMap {α : Type} {items : α → List Item} {size : α → Nat}
    (each : ∀ x, totalSize (items x) = size x) (xs : List α) (start : Nat) :
    xs.foldl (fun total x => total + size x) start = start + totalSize (xs.flatMap items) := by
  induction xs generalizing start with
  | nil => simp
  | cons x rest ih =>
    rw [List.foldl_cons, ih, List.flatMap_cons, totalSize_append, each]
    omega

theorem totalSize_words {α : Type} {items : α → List Item} {width : Nat}
    (each : ∀ x, totalSize (items x) = width) (xs : List α) :
    totalSize (xs.flatMap items) = width * xs.length := by
  induction xs with
  | nil => simp
  | cons x rest ih =>
    rw [List.flatMap_cons, totalSize_append, each, ih, List.length_cons]
    ring

theorem totalSize_chars (cs : List Byte) : totalSize (cs.map charItem) = cs.length := by
  have each : ∀ c, totalSize [charItem c] = 1 := fun c => by simp
  rw [List.map_eq_flatMap, totalSize_words each, Nat.one_mul]

theorem encodeUInt32_eq (host : Host) (data : UInt32T) :
    encodeUInt32 host data = encodeItems host [uint32Item data] := by
  simp [encodeUInt32, encodeItems, writeAll]

theorem encodeString_eq (host : Host) (str : List Byte) :
    encodeString host str = encodeItems host [.string str] := by
  simp [encodeString, encodeItems, writeAll, Item.size]

theorem encodeTime_eq (host : Host) (time : BitVec 64) :
    encodeTime host time = encodeItems host [doubleItem time] := by
  simp [encodeTime, encodeItems, writeAll]

/-- A collection whose count and elements are written, after a length computed for them. -/
theorem counted_eq {α : Type} {host : Host} {body : α → Access Unit} {items : α → List Item}
    {data : List α} {size : Nat} (each : ∀ x, body x = writeAll host (items x))
    (length : 4 + totalSize (data.flatMap items) = size) :
    (do
      reset host
      let _ ← write_uint32 host (BitVec.ofNat 32 size)
      let _ ← write_uint32 host (BitVec.ofNat 32 data.length)
      writeEach body data
      encodeMB host) = encodeItems host (countItem data.length :: data.flatMap items) := by
  rw [writeEach_items each, ← length]
  simp [encodeItems, writeAll]

theorem encodeVectorHandle_eq (host : Host) (data : List UInt32T) :
    encodeVectorHandle host data =
      encodeItems host (countItem data.length :: data.map uint32Item) := by
  rw [List.map_eq_flatMap]
  refine counted_eq (fun h => by simp [writeAll]) ?_
  have each : ∀ h, totalSize [uint32Item h] = 4 := fun h => by simp
  rw [totalSize_words each]
  omega

theorem encodeHandleBasedCounts_eq (host : Host) (data : List (UInt32T × UInt32T)) :
    encodeHandleBasedCounts host data = encodeItems host (countItem data.length ::
      data.flatMap fun pair => [uint32Item pair.1, uint32Item pair.2]) := by
  refine counted_eq (fun pair => by simp [writeAll]) ?_
  have each : ∀ pair : UInt32T × UInt32T,
      totalSize [uint32Item pair.1, uint32Item pair.2] = 8 := fun pair => by simp
  rw [totalSize_words each]
  omega

theorem encodeVectorString_eq (host : Host) (data : List (List Byte)) :
    encodeVectorString host data =
      encodeItems host (countItem data.length :: data.map .string) := by
  rw [List.map_eq_flatMap]
  refine counted_eq (fun str => by simp [writeAll]) ?_
  have octets : ∀ start, data.foldl (fun size str => size + str.length) start + 4 * data.length =
      start + totalSize (data.flatMap fun str => [.string str]) := by
    induction data with
    | nil => simp
    | cons str rest ih =>
      intro start
      have later := ih (start + str.length)
      simp only [List.foldl_cons, List.length_cons, List.flatMap_cons, totalSize_append,
        totalSize_cons, totalSize_nil, Item.size]
      omega
  have total := octets 0
  omega

theorem encodeStringList_eq (host : Host) (strs : List (List Byte)) :
    encodeStringList host strs = encodeItems host ((Value.stringList strs).items host) := by
  refine counted_eq (fun str => ?_) ?_
  · have padding : ∀ zeros : List Byte,
        writeEach (fun c => do let _ ← write_chars host [c] 1) zeros =
          writeAll host (zeros.map charItem) := by
      intro zeros
      rw [List.map_eq_flatMap]
      exact writeEach_items (fun c => by simp [writeAll]) zeros
    rw [writeAll, write_stringItem, ← padding]
    by_cases whole : str.length % 4 = 0
    · simp [whole, paddingSize, writeEach]
    · simp [whole, paddingSize]
  · have size : ∀ str : List Byte,
        totalSize (.string str :: (List.replicate (paddingSize str) 0).map charItem) =
          4 + (str.length + paddingSize str) := by
      intro str
      rw [totalSize_cons, totalSize_chars, List.length_replicate, Item.size]
      omega
    have all := totalSize_flatMap size strs 4
    simpa [overallSize, Nat.add_assoc] using all.symm

/-! ## What is returned -/

/-- The octets of an item sequence. -/
def octets (host : Host) (items : List Item) : ParameterValue := items.flatMap (wire host.order)

theorem length_octets (host : Host) (items : List Item) :
    (octets host items).length = totalSize items :=
  length_flatMap_wire host.order items

/-- A buffer that was reset and written to. -/
theorem writes_filled {mb : MessageBuffer} (host : Host) (items : List Item) (fit : Fit mb)
    (room : 5 < mb.bufferMaxSize.toNat) (small : totalSize items < 2 ^ 31) :
    ∃ b c, reset host mb = .ok () b ∧ writeAll host items b = .ok () c ∧
      Filled host (octets host items) c := by
  obtain ⟨memory, cleared, length⟩ := reset_ok host fit room
  have empty : Fit { mb with
      buffer := memory
      bufferHasMyEndianness := true
      writeOffset := reservedBytes
      readOffset := reservedBytes } := by
    constructor
    · exact length.trans fit.sized
    · exact Nat.le_of_lt room
  have five : BitVec.toNat reservedBytes = 5 := by simp [reservedBytes]
  obtain ⟨c, wrote, appended⟩ := writeAll_ok host items empty room
    (by simp only [five]; rw [← totalSize]; omega)
  refine ⟨_, c, cleared, wrote, ?_⟩
  have stop := appended.offset
  simp only [five] at stop
  exact {
    fit := appended.fit
    room := Nat.lt_of_lt_of_le room appended.grown
    order := by simp [MessageBuffer.order, appended.endianness]
    start := by rw [appended.readOffset, five]
    stop := stop
    unread := by
      rw [MessageBuffer.unread, appended.readOffset, appended.contents, five]
      apply List.drop_left'
      rw [empty.length_contents, five] }

/-- An encoder from a buffer returns what it wrote behind the length, and the length is its. -/
structure ReturnsWritten (host : Host) (payload : ParameterValue) (c : MessageBuffer) : Prop where
  written : c.contents.drop 5 = word32 host (BitVec.ofNat 32 payload.length) ++ payload
  counted : payload.length < 2 ^ 32
  fit : Fit c
  room : 5 < c.bufferMaxSize.toNat

theorem encodeItems_ok {mb : MessageBuffer} (host : Host) {items : List Item} (fit : Fit mb)
    (room : 5 < mb.bufferMaxSize.toNat) (small : 4 + totalSize items < 2 ^ 31) :
    ∃ c, encodeItems host items mb = .ok (octets host items) c ∧
      ReturnsWritten host (octets host items) c := by
  obtain ⟨b, c, cleared, wrote, filled⟩ :=
    writes_filled host (countItem (totalSize items) :: items) fit room
      (by rw [totalSize_cons, size_countItem]; exact small)
  have laid : octets host (countItem (totalSize items) :: items) =
      word32 host (BitVec.ofNat 32 (totalSize items)) ++ octets host items := by
    simp [octets, wire, countItem, uint32Item, word32, Scalar.width]
  rw [laid] at filled
  have count : (BitVec.ofNat 32 (totalSize items)).toNat = totalSize items :=
    toNat_ofNat (by omega)
  have four : c.readOffset.toNat + 4 ≤ c.writeOffset.toNat := filled.inside (by simp [word32])
  have all : (c.advance 4).readOffset.toNat + 1 * (BitVec.ofNat 32 (totalSize items)).toNat ≤
      (c.advance 4).writeOffset.toNat := by
    rw [readOffset_advance four, advance_writeOffset, count, filled.start, filled.stop,
      List.length_append, length_octets]
    simp [word32]
    omega
  obtain ⟨data, off, done, -, same⟩ := read_uint8s_ok host (filled.fit.advance 4) all
  have next : (c.advance 4).unread =
      (octets host items).flatMap (layout (order host (c.advance 4)) 1) ++ [] := by
    rw [unread_advance four, filled.unread, List.drop_left' (by simp [word32]),
      flatMap_layout_byte, List.append_nil]
  have found : data = octets host items := same _ [] (by rw [count, length_octets]) next
  refine ⟨(c.advance 4).advance (1 * (BitVec.ofNat 32 (totalSize items)).toNat), ?_, ?_⟩
  · rw [encodeItems, bind_ok cleared, bind_ok wrote, encodeMB, bind_ok (read_uint32_first filled),
      read_chars, bind_ok done, pure_apply, found]
  · constructor
    · have unread := filled.unread
      rw [MessageBuffer.unread, filled.start] at unread
      rw [length_octets, ← unread]
      rfl
    · rw [length_octets]
      omega
    · exact (filled.fit.advance _).advance _
    · exact filled.room

/-- The next character. -/
theorem read_char_next {c : Byte} {rest : List Byte} {b : MessageBuffer} (host : Host)
    (fit : Fit b) (ahead : b.readOffset.toNat ≤ b.writeOffset.toNat) (next : b.unread = c :: rest) :
    retval (read_chars 1) b = .ok c (b.advance 1) ∧ Fit (b.advance 1) ∧
      (b.advance 1).readOffset.toNat ≤ (b.advance 1).writeOffset.toNat ∧
      (b.advance 1).unread = rest := by
  have inside : b.readOffset.toNat + 1 ≤ b.writeOffset.toNat := by
    have length := fit.length_unread
    rw [next, List.length_cons] at length
    omega
  obtain ⟨x, done, same⟩ := retval_ok (read_uint8s_ok (n := 1) host fit inside)
  have found : x = c := by
    apply same c rest
    have single := flatMap_layout_byte (order host b) [c]
    rw [List.flatMap_singleton] at single
    rw [single, next, List.singleton_append]
  rw [found] at done
  refine ⟨done, fit.advance 1, ?_, ?_⟩
  · rw [readOffset_advance inside, advance_writeOffset]
    exact inside
  · rw [unread_advance inside, next, List.drop_one, List.tail_cons]

theorem word32_four (host : Host) (n : UInt32T) : ∃ a b c d, word32 host n = [a, b, c, d] := by
  have length : (word32 host n).length = 4 := by simp [word32]
  obtain ⟨a, three, first⟩ := List.exists_cons_of_length_eq_add_one length
  rw [first, List.length_cons, Nat.add_right_cancel_iff] at length
  obtain ⟨b, c, d, rest⟩ := List.length_eq_three.mp length
  exact ⟨a, b, c, d, by rw [first, rest]⟩

theorem encodeIp_eq {mb : MessageBuffer} (host : Host) (ip : UInt32T) (fit : Fit mb)
    (room : 5 < mb.bufferMaxSize.toNat) : ∃ c, Fit c ∧ 5 < c.bufferMaxSize.toNat ∧
      encodeIp host ip mb = encodeItems host [.string (ipText host ip)] c := by
  obtain ⟨b, d, cleared, wrote, filled⟩ := writes_filled host [uint32Item ip] fit room (by simp)
  rw [writeAll, write_uint32Item] at wrote
  obtain ⟨off, d', word, rest⟩ := bind_returns wrote
  rw [writeAll, pure_apply, EStateM.Result.ok.injEq] at rest
  rw [rest.2] at word
  have laid : octets host [uint32Item ip] = word32 host ip := by
    simp [octets, wire, uint32Item, word32, Scalar.width]
  rw [laid] at filled
  obtain ⟨c₀, c₁, c₂, c₃, four⟩ := word32_four host ip
  have ahead : d.readOffset.toNat ≤ d.writeOffset.toNat := by
    rw [filled.start, filled.stop]
    omega
  have next : d.unread = [c₀, c₁, c₂, c₃] := filled.unread.trans four
  obtain ⟨first, fit₁, ahead₁, next₁⟩ := read_char_next host filled.fit ahead next
  obtain ⟨second, fit₂, ahead₂, next₂⟩ := read_char_next host fit₁ ahead₁ next₁
  obtain ⟨third, fit₃, ahead₃, next₃⟩ := read_char_next host fit₂ ahead₂ next₂
  obtain ⟨fourth, fit₄, -, -⟩ := read_char_next host fit₃ ahead₃ next₃
  refine ⟨_, fit₄, filled.room, ?_⟩
  rw [encodeIp, bind_ok cleared, bind_ok word, bind_ok first, bind_ok second, bind_ok third,
    bind_ok fourth, encodeString_eq, ipText, four]
  simp [List.intercalate]

/-- Every encoder writes a length and its items, from some buffer. -/
theorem encode_eq {mb : MessageBuffer} (host : Host) (v : Value) (fit : Fit mb)
    (room : 5 < mb.bufferMaxSize.toNat) : ∃ c, Fit c ∧ 5 < c.bufferMaxSize.toNat ∧
      encode host v mb = encodeItems host (v.items host) c := by
  have here : ∀ {w : Access ParameterValue}, w = encodeItems host (v.items host) →
      ∃ c, Fit c ∧ 5 < c.bufferMaxSize.toNat ∧ w mb = encodeItems host (v.items host) c :=
    fun same => ⟨mb, fit, room, by rw [same]⟩
  cases v with
  | string str => exact here (encodeString_eq host str)
  | stringList strs => exact here (encodeStringList_eq host strs)
  | boolean data => exact here (encodeUInt32_eq host _)
  | uint32 data => exact here (encodeUInt32_eq host data)
  | version v => cases v <;> exact here (encodeString_eq host _)
  | time t => exact here (encodeTime_eq host t)
  | ip address => exact encodeIp_eq host address fit room
  | federateHandleList my_federates => exact here (encodeVectorHandle_eq host my_federates)
  | federateState isSaving isRestoring =>
    cases isSaving <;> cases isRestoring <;> exact here (encodeUInt32_eq host _)
  | vectorHandle data => exact here (encodeVectorHandle_eq host data)
  | handleBasedCounts data => exact here (encodeHandleBasedCounts_eq host data)
  | vectorString data => exact here (encodeVectorString_eq host data)

theorem encode_ok {mb : MessageBuffer} (host : Host) (v : Value) (fit : Fit mb)
    (room : 5 < mb.bufferMaxSize.toNat) (small : 4 + totalSize (v.items host) < 2 ^ 31) :
    ∃ c, encode host v mb = .ok (octets host (v.items host)) c ∧
      ReturnsWritten host (octets host (v.items host)) c := by
  obtain ⟨start, fit', room', same⟩ := encode_eq host v fit room
  rw [same]
  exact encodeItems_ok host fit' room' small

/-! ## Reading it back -/

/-- The encoder that matches a decoder. -/
def Value.argument : Value → Option Argument
  | .string str => some (.string str)
  | .boolean data => some (.boolean data)
  | .uint32 data => some (.uint32 data)
  | .time t => some (.federationTime t)
  | .vectorHandle data => some (.vectorAttributeHandle data)
  | _ => none

/-- What an encoder returns is what its decoder expects. -/
theorem encodes_argument (host : Host) {v : Value} {a : Argument} (matching : v.argument = some a) :
    Encodes host (octets host (v.items host)) a := by
  cases v <;> simp only [Value.argument, Option.some.injEq, reduceCtorEq] at matching <;>
    subst matching
  case string str => simp [Encodes, octets, Value.items]
  case boolean data =>
    simp [Encodes, octets, Value.items, uint32Item, wire, word32, Scalar.width]
  case uint32 data =>
    simp [Encodes, octets, Value.items, uint32Item, wire, word32, Scalar.width]
  case time t => simp [Encodes, octets, Value.items, doubleItem, wire, Scalar.width]
  case vectorHandle data =>
    simp [Encodes, octets, Value.items, countItem, uint32Item, wire, word32, Scalar.width,
      List.flatMap_map]
    rfl

/-- The words of some octets; what is left of a word at the end is not read. -/
def words (host : Host) : ParameterValue → List UInt32T
  | a :: b :: c :: d :: rest => word host.order 32 [a, b, c, d] :: words host rest
  | _ => []

/-- The handles that the loop takes from words, from turn `i` on. -/
def handlesRead (i : Nat) : List UInt32T → Option (List UInt32T)
  | [] => none
  | [bound] => if i < bound.toNat then none else some []
  | bound :: handle :: rest =>
    if i < bound.toNat then (handlesRead (i + 1) rest).map (handle :: ·) else some []

/-- A buffer in which some octets are left to read. -/
structure Left (host : Host) (data : ParameterValue) (b : MessageBuffer) : Prop where
  fit : Fit b
  order : order host b = host.order
  ahead : b.readOffset.toNat ≤ b.writeOffset.toNat
  below : b.writeOffset.toNat + 4 < 2 ^ 32
  unread : b.unread = data

theorem Filled.left {host : Host} {data : ParameterValue} {b : MessageBuffer}
    (filled : Filled host data b) (small : data.length < 2 ^ 31) : Left host data b where
  fit := filled.fit
  order := filled.order
  ahead := by
    rw [filled.start, filled.stop]
    omega
  below := by
    rw [filled.stop]
    omega
  unread := filled.unread

variable {host : Host} {data : ParameterValue} {buf : MessageBuffer}

/-- The next word is read. -/
theorem Left.read_word {a b c d : Byte} (left : Left host (a :: b :: c :: d :: data) buf) :
    read_uint32 host buf = .ok (word host.order 32 [a, b, c, d]) (buf.advance 4) ∧
      Left host data (buf.advance 4) := by
  have length := left.fit.length_unread
  rw [left.unread] at length
  simp only [List.length_cons] at length
  have inside : buf.readOffset.toNat + 4 ≤ buf.writeOffset.toNat := by omega
  have done := read_announced host left.fit inside
  rw [announced, left.order, left.unread] at done
  refine ⟨done, left.fit.advance 4, by rw [order_advance, left.order], ?_, left.below, ?_⟩
  · rw [readOffset_advance inside, advance_writeOffset]
    exact inside
  · rw [unread_advance inside, left.unread]
    rfl

/-- Fewer octets than a word has are refused. -/
theorem Left.refused (left : Left host data buf) (few : data.length < 4) :
    ∃ reason, read_uint32 host buf = .error (.MessageBufferError reason) buf := by
  have length := left.fit.length_unread
  rw [left.unread] at length
  have below := left.below
  have ahead := left.ahead
  refine (retval_checked (readScalars_checked host .uint32 1) buf).1 ?_
  rw [check_eq]
  simp [Scalar.width]
  omega

/-- Either the next word is there, or less than a word is. -/
theorem words_cases (host : Host) (data : ParameterValue) :
    (data.length < 4 ∧ words host data = []) ∨
      ∃ a b c d rest, data = a :: b :: c :: d :: rest ∧
        words host data = word host.order 32 [a, b, c, d] :: words host rest := by
  match data with
  | [] => exact .inl ⟨by simp, rfl⟩
  | [_] => exact .inl ⟨by simp, rfl⟩
  | [_, _] => exact .inl ⟨by simp, rfl⟩
  | [_, _, _] => exact .inl ⟨by simp, rfl⟩
  | a :: b :: c :: d :: rest => exact .inr ⟨a, b, c, d, rest, rfl, rfl⟩

/-- The loop follows the words. -/
theorem readHandles_words (turns i : Nat) (left : Left host data buf)
    (enough : data.length < 8 * turns) (small : i + data.length < 2 ^ 32) :
    match handlesRead i (words host data) with
    | some hs => ∃ c, readHandles host turns (BitVec.ofNat 32 i) buf = .ok hs c
    | none => ∃ reason c,
        readHandles host turns (BitVec.ofNat 32 i) buf = .error (.MessageBufferError reason) c := by
  induction turns generalizing i data buf with
  | zero => omega
  | succ turns ih =>
    have turn : (BitVec.ofNat 32 i).toNat = i := toNat_ofNat (by omega)
    rcases words_cases host data with ⟨few, none⟩ | ⟨a, b, c, d, rest, rfl, next⟩
    · obtain ⟨reason, refused⟩ := left.refused few
      rw [none]
      exact ⟨reason, buf, by rw [readHandles, bind_error refused]⟩
    · obtain ⟨bound, left'⟩ := left.read_word
      rw [next]
      generalize word host.order 32 [a, b, c, d] = w at bound ⊢
      have test : (BitVec.ofNat 32 i < w) ↔ i < w.toNat := by rw [BitVec.lt_def, turn]
      rw [readHandles, bind_ok bound]
      simp only [test]
      rcases words_cases host rest with ⟨few, none⟩ | ⟨e, f, g, h, rest, rfl, next'⟩
      · rw [none, handlesRead]
        by_cases goes : i < w.toNat
        · obtain ⟨reason, refused⟩ := left'.refused few
          simp only [goes, if_true]
          exact ⟨reason, buf.advance 4, bind_error refused⟩
        · simp only [goes, if_false]
          exact ⟨buf.advance 4, rfl⟩
      · rw [next', handlesRead]
        by_cases goes : i < w.toNat
        · obtain ⟨handle, left''⟩ := left'.read_word
          simp only [List.length_cons] at enough small
          have later := ih (i + 1) left'' (by omega) (by omega)
          rw [BitVec.ofNat_add] at later
          simp only [goes, if_true, bind_ok handle]
          cases read : handlesRead (i + 1) (words host rest) with
          | none =>
            rw [read] at later
            obtain ⟨reason, c, failed⟩ := later
            exact ⟨reason, c, bind_error failed⟩
          | some hs =>
            rw [read] at later
            obtain ⟨c, done⟩ := later
            exact ⟨c, bind_ok done⟩
        · simp only [goes, if_false]
          exact ⟨buf.advance 4, rfl⟩

/-- Turn `n` is the first, of those from turn `i` on, whose bound is not above its number; the
bounds are every second word. -/
def StopsFrom (i : Nat) (ws : List UInt32T) (n : Nat) : Prop :=
  (∃ bound, ws[2 * n]? = some bound ∧ bound.toNat ≤ i + n) ∧
    ∀ j < n, ∀ bound, ws[2 * j]? = some bound → i + j < bound.toNat

theorem handlesRead_stops (i : Nat) (ws : List UInt32T) (n : Nat) :
    (handlesRead i ws).map List.length = some n ↔ StopsFrom i ws n := by
  induction i, ws using handlesRead.induct generalizing n with
  | case1 i => simp [handlesRead, StopsFrom]
  | case2 i bound goes =>
    rw [handlesRead, if_pos goes]
    cases n with
    | zero => simp [StopsFrom]; omega
    | succ n => simp [StopsFrom]
  | case3 i bound stops =>
    rw [handlesRead, if_neg stops]
    cases n with
    | zero => simp [StopsFrom]; omega
    | succ n => simp [StopsFrom]
  | case4 i bound handle rest goes ih =>
    rw [handlesRead, if_pos goes, Option.map_map]
    cases n with
    | zero => simp [StopsFrom]; omega
    | succ n =>
      have longer : ((handlesRead (i + 1) rest).map (List.length ∘ (handle :: ·)) = some (n + 1)) ↔
          (handlesRead (i + 1) rest).map List.length = some n := by
        cases handlesRead (i + 1) rest <;> simp
      have shift : ∀ j, (bound :: handle :: rest)[2 * (j + 1)]? = rest[2 * j]? := by
        intro j
        rw [Nat.mul_add, Nat.mul_one, List.getElem?_cons_succ, List.getElem?_cons_succ]
      rw [longer, ih n, StopsFrom, StopsFrom, Nat.forall_lt_succ_left]
      simp only [shift, Nat.mul_zero, Nat.add_zero, List.getElem?_cons_zero, ← Nat.add_assoc,
        Nat.add_right_comm i 1]
      simp [goes]
  | case5 i bound handle rest stops =>
    rw [handlesRead, if_neg stops]
    cases n with
    | zero => simp [StopsFrom]; omega
    | succ n =>
      refine iff_of_false (by simp) ?_
      rintro ⟨-, before⟩
      exact stops (before 0 (by omega) bound (by simp))

/-- Some octets are decoded to as many handles as the leading count says, or an exception is
thrown. -/
def CountsHandles (host : Host) (data : ParameterValue) (mb : MessageBuffer) : Prop :=
  (∃ hs c count, decodeVectorAttributeHandle host data mb = .ok hs c ∧
    (words host data)[0]? = some count ∧ hs.length = count.toNat) ∨
  ∃ reason c, decodeVectorAttributeHandle host data mb = .error (.MessageBufferError reason) c

/-- The turn that the loop stops at is the one the leading count numbers. -/
def StopsAtCount (ws : List UInt32T) : Prop :=
  ∀ n, StopsFrom 0 ws n → ∃ count, ws[0]? = some count ∧ count.toNat = n

theorem decodeVectorAttributeHandle_words {mb : MessageBuffer} (host : Host)
    {data : ParameterValue} (fit : Fit mb) (room : 5 < mb.bufferMaxSize.toNat)
    (small : data.length < 2 ^ 31) :
    match handlesRead 0 (words host data) with
    | some hs => ∃ c, decodeVectorAttributeHandle host data mb = .ok hs c
    | none => ∃ reason c,
        decodeVectorAttributeHandle host data mb = .error (.MessageBufferError reason) c := by
  obtain ⟨b, done, filled⟩ := fill_ok host fit room small
  have follows := readHandles_words (data.length + 1) 0 (filled.left small) (by omega) (by omega)
  rw [decodeVectorAttributeHandle, bind_ok done]
  exact follows

theorem countsHandles_iff (host : Host) (data : ParameterValue) (mb : Scratch)
    (small : data.length < 2 ^ 31) :
    CountsHandles host data mb.buffer ↔ StopsAtCount (words host data) := by
  have follows := decodeVectorAttributeHandle_words host mb.fit mb.room small
  have stops := handlesRead_stops 0 (words host data)
  unfold CountsHandles StopsAtCount
  simp only [← stops]
  cases read : handlesRead 0 (words host data) with
  | none =>
    rw [read] at follows
    exact iff_of_true (.inr follows) (by simp)
  | some hs =>
    rw [read] at follows
    obtain ⟨c, done⟩ := follows
    rw [done]
    constructor
    · rintro (⟨hs', c', count, same, leading, counted⟩ | ⟨reason, c', failed⟩)
      · obtain rfl : hs = hs' := by
          cases same
          rfl
        intro n length
        simp only [Option.map_some, Option.some.injEq] at length
        exact ⟨count, leading, by omega⟩
      · cases failed
    · intro counted
      obtain ⟨count, leading, same⟩ := counted hs.length rfl
      exact .inl ⟨hs, c, count, rfl, leading, same.symm⟩

/-- An encoded list of handles is decoded to itself only when it is empty. -/
theorem handles_return_iff (host : Host) (hs : List UInt32T) :
    (handlesRead 0 (words host (word32 host (BitVec.ofNat 32 hs.length) ++
      hs.flatMap (word32 host))) = some hs) ↔ hs = [] := by
  have split : ∀ (n : UInt32T) rest, words host (word32 host n ++ rest) = n :: words host rest := by
    intro n rest
    have back : word host.order 32 (word32 host n) = n := word_layout host.order (by omega) n
    obtain ⟨a, b, c, d, four⟩ := word32_four host n
    rw [four] at back ⊢
    rw [List.cons_append, List.cons_append, List.cons_append, List.cons_append, words, back,
      List.nil_append]
  have all : words host (hs.flatMap (word32 host)) = hs := by
    induction hs with
    | nil => rfl
    | cons h rest ih => rw [List.flatMap_cons, split, ih]
  rw [split, all]
  constructor
  · intro returned
    have stops := (handlesRead_stops 0 (BitVec.ofNat 32 hs.length :: hs) hs.length).mp (by
      rw [returned, Option.map_some])
    obtain ⟨⟨bound, found, -⟩, -⟩ := stops
    obtain ⟨inside, -⟩ := List.getElem?_eq_some_iff.mp found
    rw [List.length_cons] at inside
    exact List.length_eq_zero_iff.mp (by omega)
  · rintro rfl
    simp [handlesRead]

/-- A true Boolean is the last octet of its word where the host is big-endian; the decoder looks
at the first. -/
theorem boolean_lost {mb : MessageBuffer} (bigEndian : host.isBigEndian = true) (fit : Fit mb)
    (room : 5 < mb.bufferMaxSize.toNat) :
    ∃ c, decodeBoolean host (word32 host 1) mb = .ok false c := by
  have big : host.order = .big := by simp [Host.order, bigEndian]
  have first : word32 host 1 = wire host.order (.bool false) ++ [0, 0, 1] := by
    rw [word32, big]
    decide
  have short : (word32 host 1).length < 2 ^ 31 := by simp [word32]
  obtain ⟨b, done, filled⟩ := fill_ok host fit room short
  rw [first] at filled
  exact ⟨b.advance 1, by rw [decodeBoolean, bind_ok done, read_bool_first filled]⟩

/-- What the matching encoder returned for a value is decoded to that value. -/
def ReturnsValue (host : Host) (v : Value) (a : Argument) (mb : MessageBuffer) : Prop :=
  ∃ payload c d, encode host v mb = .ok payload c ∧ decode host a.decoder payload c = .ok a d

theorem returnsValue_iff (host : Host) {v : Value} {a : Argument} (matching : v.argument = some a)
    (mb : Scratch) (small : 4 + totalSize (v.items host) < 2 ^ 31) :
    ReturnsValue host v a mb.buffer ↔ Plain host a := by
  obtain ⟨c, encoded, returns⟩ := encode_ok host v mb.fit mb.room small
  have encodes := encodes_argument host matching
  have short : (octets host (v.items host)).length < 2 ^ 31 := by
    rw [length_octets]
    omega
  constructor
  · rintro ⟨payload, c', d, encoded', decoded⟩
    rw [encoded] at encoded'
    obtain ⟨rfl, rfl⟩ : octets host (v.items host) = payload ∧ c = c' := by
      cases encoded'
      exact ⟨rfl, rfl⟩
    cases a with
    | boolean flag =>
      rintro rfl
      by_contra big
      rw [Bool.not_eq_false] at big
      obtain ⟨e, lost⟩ := boolean_lost big returns.fit returns.room
      rw [Encodes, if_pos rfl] at encodes
      rw [encodes, Argument.decoder, decode, map_eq_pure_bind, bind_ok lost, pure_apply] at decoded
      cases decoded
    | vectorAttributeHandle handles =>
      have follows := decodeVectorAttributeHandle_words host returns.fit returns.room short
      rw [Argument.decoder, decode, map_eq_pure_bind] at decoded
      obtain ⟨hs, e, read, same⟩ := bind_returns decoded
      obtain rfl : hs = handles := by
        cases same
        rfl
      rw [read] at follows
      rw [Encodes] at encodes
      rw [Plain, ← handles_return_iff host, ← encodes]
      cases words : handlesRead 0 (words host (octets host (v.items host))) with
      | none =>
        rw [words] at follows
        obtain ⟨reason, e', failed⟩ := follows
        cases failed
      | some hs' =>
        rw [words] at follows
        obtain ⟨e', done⟩ := follows
        cases done
        rfl
    | _ => trivial
  · intro plain
    obtain ⟨d, decoded, -, -⟩ :=
      decodes_plain encodes plain short c returns.fit returns.room
    exact ⟨_, c, d, encoded, decoded⟩

/-- The encoders return what they wrote behind its length, and the decoders read it back but for
a true Boolean on a big-endian host and a list with an element; a list of handles has the length
it begins with when the loop happens to stop there. -/
theorem mom_values_iff (host : Host) (mb : Scratch) (v : Value) (data : ParameterValue)
    (small : 4 + totalSize (v.items host) < 2 ^ 31) (short : data.length < 2 ^ 31) :
    (∃ payload c, encode host v mb.buffer = .ok payload c ∧ ReturnsWritten host payload c) ∧
      (∀ a, v.argument = some a → (ReturnsValue host v a mb.buffer ↔ Plain host a)) ∧
      (CountsHandles host data mb.buffer ↔ StopsAtCount (words host data)) := by
  obtain ⟨c, encoded, returns⟩ := encode_ok host v mb.fit mb.room small
  exact ⟨⟨_, c, encoded, returns⟩, fun a matching => returnsValue_iff host matching mb small,
    countsHandles_iff host data mb short⟩

/-- Two handles, and four words whose second bound is nought. -/
theorem mom_values_two :
    (4 + totalSize ((Value.vectorHandle [5, 6]).items littleHost) < 2 ^ 31 ∧
      [2, 0, 0, 0].length < 2 ^ 31) ∧
    (∃ payload c, encode littleHost (.vectorHandle [5, 6]) newBuffer.buffer = .ok payload c ∧
        ReturnsWritten littleHost payload c) ∧
      (∀ a, (Value.vectorHandle [5, 6]).argument = some a →
        (ReturnsValue littleHost (.vectorHandle [5, 6]) a newBuffer.buffer ↔ Plain littleHost a)) ∧
      (CountsHandles littleHost [2, 0, 0, 0] newBuffer.buffer ↔
        StopsAtCount (words littleHost [2, 0, 0, 0])) :=
  ⟨⟨by decide, by decide⟩,
    mom_values_iff littleHost newBuffer (.vectorHandle [5, 6]) [2, 0, 0, 0] (by decide) (by decide)⟩

/-- A list of one handle is not read back. -/
theorem handle_list_lost : ¬∀ (host : Host) (mb : Scratch) (v : Value) (a : Argument),
    v.argument = some a → 4 + totalSize (v.items host) < 2 ^ 31 →
      ReturnsValue host v a mb.buffer := by
  intro returns
  have plain := (returnsValue_iff littleHost rfl newBuffer (by decide)).mp
    (returns littleHost newBuffer (.vectorHandle [5]) _ rfl (by decide))
  exact absurd plain (by simp [Plain])

end Certi.MOM
