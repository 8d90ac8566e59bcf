import Mathlib.Data.List.TakeWhile
import Certi.LibHLA.RoundTrip
import Certi.LibHLA.Bounds
import Certi.LibHLA.MsgBuffer

/-!
# The C and the C++ buffer

Both lay out the same bytes, as far as they are given the same characters: C
ends a string at its first NUL. They differ in what a new buffer of very few
bytes holds, in the bytes a boolean is read from, and in the room they ask for
a string.
-/
namespace Certi.MsgBuffer

open Bytes MessageBuffer Throwing

/-! ## Shared pieces -/

section shared

variable {α β : Type}

theorem shared_ok {piece : Access α} {a : α} {b b' : MessageBuffer} (done : piece b = .ok a b') :
    shared piece b = .ok a b' := by
  rw [shared, done]

theorem shared_error {piece : Access α} {e : Fault} {b b' : MessageBuffer}
    (failed : piece b = .error e b') : shared piece b = .error .outOfBounds b' := by
  rw [shared, failed]

theorem shared_pure (a : α) : shared (pure a) = pure a := by
  funext b
  rw [shared_ok (pure_apply a b), pure_apply]

theorem shared_bind (first : Access α) (later : α → Access β) :
    shared (first >>= later) = shared first >>= fun a => shared (later a) := by
  funext b
  cases done : first b with
  | ok a c => rw [bind_ok (shared_ok done), shared, shared, bind_ok done]
  | error e c => rw [bind_error (shared_error done), shared_error (bind_error done)]

end shared

/-! ## Writing -/

/-- What of a value C hands over. -/
def Datum.sent : Datum → Item
  | .scalars t data => .scalars t data
  | .bool toggle => .bool (toggle != 0)
  | .string str => .string (cString str)

theorem cString_terminated (str : List Byte) : cString (str ++ [0]) = cString str := by
  induction str with
  | nil => simp [cString]
  | cons c rest ih =>
    rw [cString, cString] at ih
    by_cases nul : c = 0
    · simp [cString, nul]
    · simp only [cString, List.cons_append]
      rw [List.takeWhile_cons_of_pos (by simpa using nul),
        List.takeWhile_cons_of_pos (by simpa using nul), ih]

theorem cString_prefix (str : List Byte) : str.take (cString str).length = cString str := by
  have front : cString str <+: str := List.takeWhile_prefix _
  exact (List.prefix_iff_eq_take.mp front).symm

theorem length_cString_le (str : List Byte) : (cString str).length ≤ str.length :=
  (List.takeWhile_prefix _ : cString str <+: str).length_le

theorem cString_eq_iff (str : List Byte) : cString str = str ↔ 0 ∉ str := by
  rw [cString, List.takeWhile_eq_self_iff]
  constructor
  · intro all nul
    simpa using all 0 nul
  · intro none c member
    simp only [ne_eq, decide_not, Bool.not_eq_eq_eq_not, Bool.not_true, decide_eq_false_iff_not]
    rintro rfl
    exact none member

theorem length_cString_lt {str : List Byte} (nul : 0 ∈ str) :
    (cString str).length < str.length := by
  apply Nat.lt_of_le_of_ne (length_cString_le str)
  intro same
  have whole := cString_prefix str
  rw [same, List.take_length] at whole
  exact (cString_eq_iff str).mp whole.symm nul

theorem strlen_terminated (str : List Byte) :
    strlen (str ++ [0]) = pure (cString str).length := by
  rw [strlen, if_pos (by simp), cString_terminated]

/-- `write_chars` takes as many characters as it is told from where it is told. -/
theorem write_chars_terminated (host : Host) (str : List Byte) (small : str.length < 2 ^ 32) :
    write_chars host (str ++ [0]) (BitVec.ofNat 32 (cString str).length) =
      write_chars host (cString str) (BitVec.ofNat 32 (cString str).length) := by
  have shorter := length_cString_le str
  have count : (BitVec.ofNat 32 (cString str).length).toNat = (cString str).length :=
    toNat_ofNat (by omega)
  have front : (str ++ [0]).take (cString str).length = cString str := by
    rw [List.take_append_of_le_length shorter, cString_prefix]
  have enough : (cString str).length ≤ (str ++ [0]).length := by
    rw [List.length_append]
    omega
  simp only [write_chars, write_uint8s, pointed, count, if_pos enough, front, Nat.le_refl, if_true,
    List.take_length]

theorem MB_write_eq (host : Host) {datum : Datum} (small : datum.item.size < 2 ^ 31) :
    MB_write host datum = shared (write (calloc host) datum.sent) := by
  cases datum with
  | scalars t data => cases t <;> rfl
  | bool toggle =>
    by_cases off : toggle = 0
    · subst off
      rfl
    · rw [MB_write, MB_write_bool, if_pos off, Datum.sent, write, write_bool]
      simp only [bne_iff_ne, ne_eq, off, not_false_eq_true, if_true]
      rfl
  | string str =>
    simp only [Datum.item, Item.size] at small
    rw [MB_write, MB_write_string, strlen_terminated, pure_bind, Datum.sent, write, write_string,
      shared_bind]
    congr 1
    funext _
    rw [pure_bind, ← write_chars_terminated _ _ (by omega)]
    rfl

theorem MB_writeAll_eq (host : Host) {data : List Datum}
    (small : totalSize (data.map Datum.item) < 2 ^ 31) :
    MB_writeAll host data = shared (writeAll (calloc host) (data.map Datum.sent)) := by
  induction data with
  | nil => exact (shared_pure ()).symm
  | cons datum rest ih =>
    rw [totalSize, List.map_cons, List.map_cons, List.sum_cons, ← totalSize] at small
    rw [List.map_cons, MB_writeAll, writeAll, shared_bind, MB_write_eq host (by omega),
      ih (by omega)]

theorem size_sent_le (datum : Datum) : datum.sent.size ≤ datum.item.size := by
  cases datum with
  | scalars t data => exact Nat.le_refl _
  | bool toggle => exact Nat.le_refl _
  | string str =>
    simp only [Datum.sent, Datum.item, Item.size]
    exact Nat.add_le_add_left (length_cString_le str) 4

theorem totalSize_sent_le (data : List Datum) :
    totalSize (data.map Datum.sent) ≤ totalSize (data.map Datum.item) := by
  induction data with
  | nil => exact Nat.le_refl _
  | cons datum rest ih =>
    simp only [totalSize, List.map_cons, List.sum_cons] at ih ⊢
    exact Nat.add_le_add (size_sent_le datum) ih

/-! ## New buffers -/

/-- A buffer into which nothing was written yet, and its reserved bytes. -/
structure Blank (reserved : List Byte) (b : MessageBuffer) : Prop where
  fit : Fit b
  room : 5 < b.bufferMaxSize.toNat
  written : b.writeOffset = reservedBytes
  contents : b.contents = reserved

theorem allocated_updated (host : Host) {n : UInt32T} (some : 1 ≤ n.toNat) :
    ∃ b, updateReservedBytes host (allocated host n) = .ok () b ∧
      Blank (header host.order 5) b ∧ n.toNat ≤ b.bufferMaxSize.toNat ∧
      b.bufferHasMyEndianness = true := by
  have sized : (allocated host n).buffer.length = n.toNat := by simp [allocated]
  obtain ⟨memory, c, updated, -, front, -, appended⟩ :=
    updateReservedBytes_appends host sized some
  have offset : c.writeOffset.toNat = 5 := by simpa using appended.offset
  have room := appended.room
  have contents := appended.contents
  have start : MessageBuffer.contents { allocated host n with buffer := memory, writeOffset := 1 } =
      [flag (order host (allocated host n))] := front
  rw [offset] at room
  rw [start, MessageBuffer.contents, offset] at contents
  refine ⟨_, updated, ?_, appended.grown, appended.endianness⟩
  constructor
  · constructor
    · exact appended.fit.sized
    · exact Nat.le_of_lt room
  · exact room
  · rfl
  · exact contents

theorem Blank.cleared {reserved : List Byte} {b : MessageBuffer} (blank : Blank reserved b)
    {k : Nat} (inside : k ≤ b.bufferMaxSize.toNat) :
    ∃ memory, copyInto 0 (List.replicate k 0) b = .ok () { b with buffer := memory } ∧
      Blank (List.replicate (min 5 k) 0 ++ reserved.drop k) { b with buffer := memory } := by
  obtain ⟨memory, copied, length, front, behind⟩ :=
    copyInto_ok 0 (List.replicate k 0) blank.fit.sized (by simpa using inside)
  have wiped : memory.take k = List.replicate k 0 := by simpa using front
  have kept : memory.drop k = b.buffer.drop k := by simpa using behind
  have whole : memory = List.replicate k 0 ++ b.buffer.drop k := by
    rw [← wiped, ← kept, List.take_append_drop]
  refine ⟨memory, copied, ?_⟩
  constructor
  · constructor
    · exact length.trans blank.fit.sized
    · exact blank.fit.inside
  · exact blank.room
  · exact blank.written
  · have five : b.writeOffset.toNat = 5 := by simp [blank.written, reservedBytes]
    have before := blank.contents
    rw [MessageBuffer.contents, five] at before
    simp only [MessageBuffer.contents, five]
    rw [whole, List.take_append, List.take_replicate, List.length_replicate, ← before,
      List.drop_take]

/-- The constructor clears only as many bytes as it was asked for. -/
theorem create_blank (host : Host) {n : UInt32T} (some : 1 ≤ n.toNat) :
    ∃ b, create host n = .ok () b ∧
      Blank (List.replicate (min 5 n.toNat) 0 ++ (header host.order 5).drop n.toNat) b ∧
      b.bufferHasMyEndianness = true := by
  obtain ⟨b, updated, blank, grown, mine⟩ := allocated_updated host some
  obtain ⟨memory, copied, cleared⟩ := blank.cleared grown
  exact ⟨_, by rw [create, bind_ok updated, copied], cleared, mine⟩

theorem MB_createWithSize_blank (host : Host) {n : UInt32T} (some : 1 ≤ n.toNat) :
    ∃ b, MB_createWithSize host n = .ok () b ∧ Blank (List.replicate 5 0) b ∧
      b.bufferHasMyEndianness = true := by
  obtain ⟨b, updated, blank, -, mine⟩ := allocated_updated (calloc host) some
  obtain ⟨memory, copied, cleared⟩ := blank.cleared (Nat.le_refl _)
  have room := blank.room
  have all : min 5 b.bufferMaxSize.toNat = 5 := by omega
  have none : (header (calloc host).order 5).drop b.bufferMaxSize.toNat = [] := by
    apply List.drop_of_length_le
    rw [length_header]
    omega
  rw [all, none, List.append_nil] at cleared
  refine ⟨_, ?_, cleared, mine⟩
  rw [MB_createWithSize, MB_updateReservedBytes, bind_ok (shared_ok updated), get_bind,
    shared_ok copied]

theorem MB_createWithSize_zero (host : Host) :
    MB_createWithSize host 0 = .error .outOfBounds (allocated (calloc host) 0) := by
  have outside : updateReservedBytes (calloc host) (allocated (calloc host) 0) =
      .error .outOfBounds (allocated (calloc host) 0) := by
    rw [updateReservedBytes_eq]
    apply bind_error
    simp [copyInto, store, allocated]
  rw [MB_createWithSize, MB_updateReservedBytes]
  exact bind_error (shared_error outside)

/-! ## Byte-identical buffers -/

/-- The reserved bytes once a byte order was assumed. -/
def assumed (choice : Option Order) (reserved : List Byte) : List Byte :=
  match choice with
  | none => reserved
  | some o => flag o :: reserved.drop 1

theorem assumeOrder_eq (host : Host) (o : Order) :
    ∃ mine, assumeOrder host o = (do
        modify fun b => { b with bufferHasMyEndianness := mine }
        copyInto 0 [flag o]) ∧
      (if mine then host.order else host.order.flip) = o := by
  cases o with
  | little =>
    refine ⟨HostIsLittleEndian host, rfl, ?_⟩
    unfold HostIsLittleEndian Host.order
    cases host.isBigEndian <;> simp [Order.flip]
  | big =>
    refine ⟨HostIsBigEndian host, rfl, ?_⟩
    unfold HostIsBigEndian Host.order
    cases host.isBigEndian <;> simp [Order.flip]

theorem Blank.assumed {reserved : List Byte} {b : MessageBuffer} (blank : Blank reserved b)
    (host : Host) (choice : Option Order) (mine : b.bufferHasMyEndianness = true) :
    ∃ c, MessageBuffer.assume host choice b = .ok () c ∧ Blank (assumed choice reserved) c ∧
      order host c = choice.getD host.order := by
  cases choice with
  | none => exact ⟨b, by rw [MessageBuffer.assume, pure_apply], blank, by simp [order, mine]⟩
  | some o =>
    obtain ⟨told, same, order⟩ := assumeOrder_eq host o
    have room := blank.room
    have five : b.writeOffset.toNat = 5 := by simp [blank.written, reservedBytes]
    obtain ⟨memory, copied, length, front, behind⟩ :=
      copyInto_ok (b := { b with bufferHasMyEndianness := told }) 0 [flag o] blank.fit.sized
        (by simp; omega)
    have first : memory.take 1 = [flag o] := by simpa using front
    have kept : memory.drop 1 = b.buffer.drop 1 := by simpa using behind
    have whole : memory = flag o :: b.buffer.drop 1 := by
      rw [← List.take_append_drop 1 memory, first, kept, List.singleton_append]
    refine ⟨{ b with bufferHasMyEndianness := told, buffer := memory }, ?_, ?_, order⟩
    · rw [MessageBuffer.assume, same, modify_bind, copied]
    · constructor
      · constructor
        · exact length.trans blank.fit.sized
        · exact blank.fit.inside
      · exact room
      · exact blank.written
      · have before := blank.contents
        rw [MessageBuffer.contents, five] at before
        simp only [MessageBuffer.contents, five, whole, List.take_succ_cons, MsgBuffer.assumed,
          ← before, List.drop_take]

/-- What a run leaves in its buffer, the reserved bytes included. -/
def contentsOf {ε : Type} : EStateM.Result ε MessageBuffer Unit → Option (List Byte)
  | .ok _ b => some b.contents
  | .error _ _ => none

def written (host : Host) (capacity : UInt32T) (choice : Option Order) (data : List Datum) :
    EStateM.Result Fault MessageBuffer Unit :=
  match create host capacity with
  | .ok _ b => (do MessageBuffer.assume host choice; writeAll host (data.map Datum.item)) b
  | .error e b => .error e b

def MB_written (host : Host) (capacity : UInt32T) (choice : Option Order) (data : List Datum) :
    EStateM.Result Stop MsgBuffer_t Unit :=
  match MB_createWithSize host capacity with
  | .ok _ b => (do MB_assume host choice; MB_writeAll host data) b
  | .error e b => .error e b

/-- New buffers of one capacity, a byte order assumed or not, and the same values written. -/
def SameBytes (host : Host) (capacity : UInt32T) (choice : Option Order) (data : List Datum) :
    Prop :=
  contentsOf (MB_written host capacity choice data) = contentsOf (written host capacity choice data)

theorem Blank.filled {reserved : List Byte} {b : MessageBuffer} (blank : Blank reserved b)
    (host : Host) (choice : Option Order) (mine : b.bufferHasMyEndianness = true)
    (items : List Item) (small : totalSize items < 2 ^ 31) :
    ∃ c, (do MessageBuffer.assume host choice; writeAll host items) b = .ok () c ∧
      c.contents = MsgBuffer.assumed choice reserved ++
        items.flatMap (wire (choice.getD host.order)) := by
  obtain ⟨c, assumes, blank', ordered⟩ := blank.assumed host choice mine
  have five : c.writeOffset.toNat = 5 := by simp [blank'.written, reservedBytes]
  obtain ⟨d, wrote, appended⟩ := writeAll_ok host items blank'.fit
    (by rw [five]; exact blank'.room) (by rw [five, ← totalSize]; omega)
  refine ⟨d, ?_, ?_⟩
  · rw [bind_ok assumes, wrote]
  · rw [appended.contents, blank'.contents, ordered]

theorem MB_assume_eq (host : Host) (choice : Option Order) :
    MB_assume host choice = shared (MessageBuffer.assume (calloc host) choice) := by
  cases choice with
  | none => exact (shared_pure ()).symm
  | some o => cases o <;> rfl

theorem written_contents (host : Host) {capacity : UInt32T} (choice : Option Order)
    {data : List Datum} (some' : 1 ≤ capacity.toNat)
    (small : totalSize (data.map Datum.item) < 2 ^ 31) :
    contentsOf (written host capacity choice data) =
      some (assumed choice (List.replicate (min 5 capacity.toNat) 0 ++
          (header host.order 5).drop capacity.toNat) ++
        (data.map Datum.item).flatMap (wire (choice.getD host.order))) := by
  obtain ⟨b, created, blank, mine⟩ := create_blank host some'
  obtain ⟨c, filled, contents⟩ := blank.filled host choice mine _ small
  rw [written, created]
  simp only [filled, contentsOf, contents]

theorem MB_written_contents (host : Host) {capacity : UInt32T} (choice : Option Order)
    {data : List Datum} (some' : 1 ≤ capacity.toNat)
    (small : totalSize (data.map Datum.item) < 2 ^ 31) :
    contentsOf (MB_written host capacity choice data) =
      some (assumed choice (List.replicate 5 0) ++
        (data.map Datum.sent).flatMap (wire (choice.getD host.order))) := by
  obtain ⟨b, created, blank, mine⟩ := MB_createWithSize_blank host some'
  have shorter := totalSize_sent_le data
  obtain ⟨c, filled, contents⟩ := blank.filled (calloc host) choice mine (data.map Datum.sent)
    (by omega)
  have filled' : (do MB_assume host choice; MB_writeAll host data : Call Unit) b = .ok () c := by
    rw [MB_assume_eq, MB_writeAll_eq host small,
      ← shared_bind (MessageBuffer.assume (calloc host) choice)
      fun _ => writeAll (calloc host) (data.map Datum.sent)]
    exact shared_ok filled
  rw [MB_written, created]
  simp only [filled', contentsOf, contents]
  rfl

/-- The capacities at which clearing what was asked for clears the size that the reserved bytes
were given before. -/
def ClearsReserved (host : Host) (capacity : UInt32T) : Prop :=
  (if host.isBigEndian then 5 else 2) ≤ capacity.toNat

theorem reserved_cleared_iff (host : Host) {n : Nat} (some : 1 ≤ n) (choice : Option Order) :
    assumed choice (List.replicate 5 0) =
        assumed choice (List.replicate (min 5 n) 0 ++ (header host.order 5).drop n) ↔
      (if host.isBigEndian then 5 else 2) ≤ n := by
  by_cases large : 5 ≤ n
  · have none : (header host.order 5).drop n = [] := by
      apply List.drop_of_length_le
      rw [length_header]
      exact large
    have all : min 5 n = 5 := by omega
    rw [all, none, List.append_nil]
    simp only [true_iff]
    split <;> omega
  · unfold Host.order header
    rcases choice with _ | o <;> cases host.isBigEndian <;> interval_cases n <;>
      simp [assumed, flag, layout, digits, List.replicate]

theorem sent_iff {o : Order} {data : List Datum} :
    (data.map Datum.sent).flatMap (wire o) = (data.map Datum.item).flatMap (wire o) ↔
      ∀ str, .string str ∈ data → 0 ∉ str := by
  constructor
  · intro same
    have sizes : totalSize (data.map Datum.sent) = totalSize (data.map Datum.item) := by
      rw [← length_flatMap_wire o, same, length_flatMap_wire]
    clear same
    induction data with
    | nil =>
      intro str member
      cases member
    | cons datum rest ih =>
      have first := size_sent_le datum
      have others := totalSize_sent_le rest
      simp only [totalSize, List.map_cons, List.sum_cons] at sizes others
      intro str member nul
      rcases List.mem_cons.mp member with here | later
      · have shorter := length_cString_lt nul
        rw [← here] at first sizes
        simp only [Datum.sent, Datum.item, Item.size] at first sizes
        omega
      · exact ih (by simp only [totalSize]; omega) str later nul
  · intro none
    have same : data.map Datum.sent = data.map Datum.item := by
      apply List.map_congr_left
      intro datum member
      cases datum with
      | scalars t data => rfl
      | bool toggle => rfl
      | string str => rw [Datum.sent, Datum.item, (cString_eq_iff str).mpr (none str member)]
    rw [same]

theorem sameBytes_iff (host : Host) (capacity : UInt32T) (choice : Option Order)
    (data : List Datum) (small : totalSize (data.map Datum.item) < 2 ^ 31) :
    SameBytes host capacity choice data ↔
      capacity = 0 ∨ ClearsReserved host capacity ∧ ∀ str, .string str ∈ data → 0 ∉ str := by
  by_cases none : capacity = 0
  · subst none
    rw [SameBytes, MB_written, MB_createWithSize_zero, written, create_zero]
    simp [contentsOf]
  · have some' : 1 ≤ capacity.toNat := by
      apply Nat.pos_of_ne_zero
      intro zero
      exact none (BitVec.eq_of_toNat_eq zero)
    rw [SameBytes, MB_written_contents host choice some' small,
      written_contents host choice some' small, Option.some.injEq]
    simp only [none, false_or]
    have length (reserved : List Byte) (five : reserved.length = 5) :
        (assumed choice reserved).length = 5 := by
      rcases choice with _ | o <;> simp [assumed, five]
    rw [ClearsReserved, ← reserved_cleared_iff host some' choice,
      ← sent_iff (o := choice.getD host.order)]
    constructor
    · intro same
      apply List.append_inj same
      rw [length _ (by simp), length]
      simp only [List.length_append, List.length_replicate, List.length_drop, length_header]
      omega
    · rintro ⟨reserved, items⟩
      rw [reserved, items]

/-! ## Reads that C copies line by line -/

/-- One outcome in C and in C++: the same value and the same buffer, or both reject. -/
inductive Mirrors {α : Type} :
    EStateM.Result Stop MsgBuffer_t α → EStateM.Result Fault MessageBuffer α → Prop where
  | done (a : α) (b : MessageBuffer) : Mirrors (.ok a b) (.ok a b)
  | rejected (stderr reason : String) (b : MessageBuffer) :
    Mirrors (.error (.exit stderr) b) (.error (.MessageBufferError reason) b)
  | outOfBounds (b : MessageBuffer) : Mirrors (.error .outOfBounds b) (.error .outOfBounds b)

section Mirrors

variable {α β : Type}

theorem shared_mirrors {piece : Access α} (quiet : Quiet piece) (b : MessageBuffer) :
    Mirrors (shared piece b) (piece b) := by
  cases done : piece b with
  | ok a c =>
    rw [shared_ok done]
    exact .done a c
  | error e c =>
    rw [shared_error done, quiet b e c done]
    exact .outOfBounds c

theorem Mirrors.bind {first : Call α} {first' : Access α} {later : α → Call β}
    {later' : α → Access β} {b : MessageBuffer} (start : Mirrors (first b) (first' b))
    (goes : ∀ a c, first b = .ok a c → Mirrors (later a c) (later' a c)) :
    Mirrors ((first >>= later) b) ((first' >>= later') b) := by
  generalize here : first b = r at start
  generalize there : first' b = r' at start
  cases start with
  | done a c =>
    rw [bind_ok here, bind_ok there]
    exact goes a c here
  | rejected stderr reason c =>
    rw [bind_error here, bind_error there]
    exact .rejected stderr reason c
  | outOfBounds c =>
    rw [bind_error here, bind_error there]
    exact .outOfBounds c

theorem MB_error_mirrors (funName reason : String) (sz acsz : UInt32T) (b : MessageBuffer) :
    Mirrors ((MB_error funName sz acsz : Call α) b)
      ((throw (.MessageBufferError reason) : Access α) b) := by
  rw [MB_error, get_bind, throw_apply, throw_apply]
  exact .rejected _ _ b

theorem MB_read_uint8s_mirrors (n : UInt32T) (b : MessageBuffer) :
    Mirrors (MB_read_uint8s n b) (read_uint8s n b) := by
  have offset : Quiet (get : Access MessageBuffer) := by
    intro b e b' failed
    cases failed
  rw [MB_read_uint8s, read_uint8s, get_bind, get_bind]
  by_cases refused : b.writeOffset < n + b.readOffset
  · simp only [if_pos refused]
    apply Mirrors.bind (MB_error_mirrors _ _ _ _ b)
    intro a c failed
    cases failed
  · simp only [if_neg refused]
    exact shared_mirrors ((Quiet.take n).bind fun data => offset.bind fun b => Quiet.pure _) b

theorem readWords_mirrors {bits : Nat} {host : Host} {name name' : String} {size : UInt32T}
    {w : Nat} {swapped : Access (BitVec bits)} (quiet : Quiet swapped) (n : UInt32T)
    (b : MessageBuffer) :
    Mirrors (readWords host name w swapped n b)
      (MessageBuffer.readWords host name' size w swapped n b) := by
  have offset : Quiet (get : Access MessageBuffer) := by
    intro b e b' failed
    cases failed
  rw [readWords, MessageBuffer.readWords, get_bind, get_bind]
  by_cases refused : b.writeOffset < BitVec.ofNat 32 w * n + b.readOffset
  · simp only [if_pos refused]
    apply Mirrors.bind (MB_error_mirrors _ _ _ _ b)
    intro a c failed
    cases failed
  · simp only [if_neg refused]
    cases b.bufferHasMyEndianness with
    | true =>
      exact shared_mirrors ((Quiet.take _).bind fun copied => (Quiet.pure _).bind fun data =>
        offset.bind fun b => Quiet.pure _) b
    | false =>
      exact shared_mirrors ((quiet.times _).bind fun data => offset.bind fun b => Quiet.pure _) b

theorem MB_readScalars_mirrors (host : Host) (t : Scalar) (n : UInt32T) (b : MessageBuffer) :
    Mirrors (MB_readScalars host t n b) (readScalars host t n b) := by
  have halves : Mirrors (MB_read_uint16s host n b) (read_uint16s host n b) :=
    readWords_mirrors ((Quiet.take 2).bind fun bytes => Quiet.pure _) n b
  have words : Mirrors (MB_read_uint32s host n b) (read_uint32s host n b) :=
    readWords_mirrors ((Quiet.take 4).bind fun bytes => Quiet.pure _) n b
  have doubles : Mirrors (MB_read_uint64s host n b) (read_uint64s host n b) :=
    readWords_mirrors ((Quiet.take 4).bind fun second => (Quiet.take 4).bind fun first =>
      Quiet.pure _) n b
  cases t with
  | uint8 => exact MB_read_uint8s_mirrors n b
  | int8 => exact MB_read_uint8s_mirrors n b
  | char => exact MB_read_uint8s_mirrors n b
  | uint16 => exact halves
  | int16 => exact halves
  | uint32 => exact words
  | int32 => exact words
  | float => exact words
  | uint64 => exact doubles
  | int64 => exact doubles
  | double => exact doubles

theorem retval_mirrors {bits : Nat} {read : Call (List (BitVec bits) × UInt32T)}
    {read' : Access (List (BitVec bits) × UInt32T)} {b : MessageBuffer}
    (same : Mirrors (read b) (read' b)) : Mirrors (retval read b) (MessageBuffer.retval read' b) := by
  apply same.bind
  intro found c _
  exact .done _ c

end Mirrors

/-! ## The same values -/

/-- `MB_error` ended the process. -/
def exits {α : Type} : EStateM.Result Stop MsgBuffer_t α → Prop
  | .error (.exit _) _ => True
  | _ => False

/-- An exception was thrown. -/
def throws {α : Type} : EStateM.Result Fault MessageBuffer α → Prop
  | .ok _ _ => False
  | .error .outOfBounds _ => False
  | .error _ _ => True

/-- One rejects exactly when the other does, and where both return they return the same value
and leave the same offsets. -/
def Corresponds (r : EStateM.Result Stop MsgBuffer_t Datum)
    (r' : EStateM.Result Fault MessageBuffer Item) : Prop :=
  (exits r ↔ throws r') ∧
    ∀ datum msg item b, r = .ok datum msg → r' = .ok item b →
      datum.item = item ∧ msg.readOffset = b.readOffset ∧ msg.writeOffset = b.writeOffset

/-- The reads correspond one by one, up to the first that does not return in both. -/
def Alike (host : Host) : List Ask → MsgBuffer_t → MessageBuffer → Prop
  | [], _, _ => True
  | ask :: rest, msg, b =>
    Corresponds (MB_read host ask msg) (read host ask.request b) ∧
      ∀ datum msg' item b', MB_read host ask msg = .ok datum msg' →
        read host ask.request b = .ok item b' → Alike host rest msg' b'

/-- The bytes that are read the same way: a boolean is 0 or 1; a string leaves room for its
terminator in the caller's storage and holds no NUL; a negative length, which C compares as an
unsigned one, is not below the size of the storage. -/
def Accords (host : Host) (ask : Ask) (b : MessageBuffer) : Prop :=
  match ask with
  | .scalars _ _ => True
  | .bool => ∀ byte rest, b.unread = byte :: rest → byte = 0 ∨ byte = 1
  | .string slen =>
    b.readOffset.toNat + 4 ≤ b.writeOffset.toNat →
      b.writeOffset.toNat < (b.readOffset.toNat + 4 + (announced host b).toNat) % 2 ^ 32 ∨
      if (announced host b).toInt < 0 then slen ≤ announced host b
      else announced host b < slen ∧
        (b.readOffset.toNat + (4 + (announced host b).toNat) ≤ b.writeOffset.toNat →
          0 ∉ (b.unread.drop 4).take (announced host b).toNat)

/-- Every read of a sequence meets such bytes, where the ones before it leave the offset. -/
def AccordsThroughout (host : Host) : List Ask → MessageBuffer → Prop
  | [], _ => True
  | ask :: rest, b =>
    Accords host ask b ∧
      ∀ item b', read host ask.request b = .ok item b' → AccordsThroughout host rest b'

/-! ### One read -/

theorem corresponds_done {datum : Datum} {item : Item} {b : MessageBuffer} :
    Corresponds (.ok datum b) (.ok item b) ↔ datum.item = item := by
  constructor
  · rintro ⟨-, same⟩
    exact (same datum b item b rfl rfl).1
  · intro same
    refine ⟨by simp [exits, throws], ?_⟩
    rintro _ _ _ _ ⟨⟩ ⟨⟩
    exact ⟨same, rfl, rfl⟩

theorem corresponds_rejected {stderr : String} {e : Fault} {b b' : MessageBuffer} :
    Corresponds (.error (.exit stderr) b) (.error e b') ↔ e ≠ .outOfBounds := by
  cases e <;> simp [Corresponds, exits, throws]

theorem corresponds_outOfBounds {r : EStateM.Result Stop MsgBuffer_t Datum} {b : MessageBuffer} :
    Corresponds r (.error .outOfBounds b) ↔ ¬ exits r := by
  simp [Corresponds, throws]

/-- Both go on with what mirrored reads return. -/
theorem Mirrors.corresponds {α : Type} {m : Call α} {m' : Access α} {b : MessageBuffer}
    {f : α → Datum} {g : α → Item} (same : Mirrors (m b) (m' b))
    (item : ∀ a c, m' b = .ok a c → (f a).item = g a) :
    Corresponds ((do return f (← m) : Call Datum) b) ((do return g (← m') : Access Item) b) := by
  generalize here : m b = r at same
  generalize there : m' b = r' at same
  cases same with
  | done a c =>
    rw [bind_ok here, bind_ok there, pure_apply, pure_apply]
    exact corresponds_done.mpr (item a c there)
  | rejected stderr reason c =>
    rw [bind_error here, bind_error there]
    exact corresponds_rejected.mpr (by simp)
  | outOfBounds c =>
    rw [bind_error here, bind_error there]
    exact corresponds_outOfBounds.mpr (by simp [exits])

theorem corresponds_scalars (host : Host) (t : Scalar) (n : UInt32T) (b : MessageBuffer) :
    Corresponds (MB_read host (.scalars t n) b) (read host (.scalars t n) b) := by
  apply (MB_readScalars_mirrors host t n b).corresponds
  intro found c _
  rw [Datum.item]

theorem head_unread {b : MessageBuffer} (fit : Fit b) {x : Byte} {c : MessageBuffer}
    (done : read_uint8 b = .ok x c) : ∃ rest, b.unread = x :: rest := by
  have bound := b.bufferMaxSize.isLt
  have kept := fit.inside
  have one : 1 * BitVec.toNat (1 : UInt32T) = 1 := by simp
  by_cases inside : b.readOffset.toNat + 1 ≤ b.writeOffset.toNat
  · obtain ⟨y, found, same⟩ := retval_ok (read_uint8s_ok (n := 1) ⟨false, fun _ => 0⟩ fit
      (by rw [one]; exact inside))
    have next : y = x := by
      rw [read_uint8, found] at done
      cases done
      rfl
    cases ahead : b.unread with
    | nil =>
      have length := fit.length_unread
      rw [ahead, List.length_nil] at length
      omega
    | cons z rest =>
      have first : y = z := by
        apply same z rest
        rw [ahead]
        cases order ⟨false, fun _ => 0⟩ b <;> simp [layout, digits]
      exact ⟨rest, by rw [← first, next]⟩
  · obtain ⟨refuses, -⟩ := retval_checked (read_uint8s_checked 1) b
    rw [check_eq, one] at refuses
    by_cases refused : b.writeOffset.toNat < (b.readOffset.toNat + 1) % 2 ^ 32
    · obtain ⟨reason, failed⟩ := refuses refused
      rw [read_uint8, failed] at done
      cases done
    · have outside : 2 ^ 32 ≤ b.readOffset.toNat + BitVec.toNat (1 : UInt32T) := by
        have simple : BitVec.toNat (1 : UInt32T) = 1 := by simp
        rw [simple]
        by_contra small
        rw [Nat.mod_eq_of_lt (by omega)] at refused
        omega
      have passes : ¬ b.writeOffset < 1 + b.readOffset := by
        have once : BitVec.ofNat 32 1 * 1 = (1 : UInt32T) := by simp
        rw [← once, check_eq, one]
        exact refused
      have missing : take 1 b = .error .outOfBounds b := by
        rw [take, get_bind]
        exact bind_error (copyFrom_outside fit outside)
      rw [read_uint8, MessageBuffer.retval, read_uint8s, bind_assoc, get_bind] at done
      simp only [if_neg passes] at done
      rw [bind_assoc, bind_error missing] at done
      cases done

theorem bool_item_iff (x : Byte) : (Datum.bool x).item = .bool (1 == x) ↔ x = 0 ∨ x = 1 := by
  simp only [Datum.item, Item.bool.injEq]
  revert x
  decide

theorem corresponds_bool {host : Host} {b : MessageBuffer} (fit : Fit b) :
    Corresponds (MB_read host .bool b) (read host .bool b) ↔ Accords host .bool b := by
  have same : Mirrors (MB_read_uint8 b) (read_uint8 b) :=
    retval_mirrors (MB_read_uint8s_mirrors 1 b)
  have whole : read host .bool b = (do return Item.bool (1 == (← read_uint8)) : Access Item) b := by
    rw [MessageBuffer.read, read_bool, bind_assoc]
    simp only [pure_bind]
  rw [whole, MB_read, MB_read_bool]
  constructor
  · intro corresponds byte rest ahead
    have inside : b.readOffset.toNat + 1 * BitVec.toNat (1 : UInt32T) ≤ b.writeOffset.toNat := by
      have length := fit.length_unread
      rw [ahead, List.length_cons] at length
      simp
      omega
    obtain ⟨x, found, first⟩ := retval_ok (read_uint8s_ok (n := 1) host fit inside)
    have here : x = byte := by
      apply first byte rest
      rw [ahead]
      cases order host b <;> simp [layout, digits]
    have there : read_uint8 b = .ok byte (b.advance 1) := by
      rw [read_uint8, found, here]
    have mirrored := same
    rw [there] at mirrored
    generalize copied : MB_read_uint8 b = r at mirrored
    cases mirrored
    rw [bind_ok copied, bind_ok there, pure_apply, pure_apply, corresponds_done,
      bool_item_iff] at corresponds
    exact corresponds
  · intro accords
    apply same.corresponds
    intro x c done
    obtain ⟨rest, ahead⟩ := head_unread fit done
    exact (bool_item_iff x).mpr (accords x rest ahead)

/-! ### Strings -/

/-- Where the length was read, it is the one announced. -/
theorem announced_read {host : Host} {b c : MessageBuffer} {len : BitVec 32} (fit : Fit b)
    (done : read_int32 host b = .ok len c) :
    b.readOffset.toNat + 4 ≤ b.writeOffset.toNat ∧ len = announced host b ∧ c = b.advance 4 := by
  have bound := b.writeOffset.isLt
  have four : 4 * BitVec.toNat (1 : UInt32T) = 4 := by simp
  by_cases inside : b.readOffset.toNat + 4 ≤ b.writeOffset.toNat
  · have found := read_announced host fit inside
    rw [done] at found
    cases found
    exact ⟨inside, rfl, rfl⟩
  · obtain ⟨refuses, -⟩ := retval_checked (readScalars_checked host .int32 1) b
    have width : Scalar.int32.width = 4 := by simp [Scalar.width]
    rw [check_eq, width, four] at refuses
    by_cases refused : b.writeOffset.toNat < (b.readOffset.toNat + 4) % 2 ^ 32
    · obtain ⟨reason, failed⟩ := refuses refused
      have failed' : read_int32 host b = .error (.MessageBufferError reason) b := failed
      rw [failed'] at done
      cases done
    · have outside : 2 ^ 32 ≤ b.readOffset.toNat + 4 := by
        by_contra small
        rw [Nat.mod_eq_of_lt (by omega)] at refused
        omega
      rw [read_int32_outside host fit outside refused] at done
      cases done

theorem strncpy_negative {off : UInt32T} {len : BitVec 32} {b : MessageBuffer}
    (negative : len.toInt < 0) : strncpy off len b = .error .outOfBounds b := by
  rw [strncpy]
  simp only [if_pos negative]
  exact bind_error (throw_apply _ b)

theorem strncpy_quiet {off : UInt32T} {len : BitVec 32} {b b' : MessageBuffer} {stderr : String} :
    strncpy off len b ≠ .error (.exit stderr) b' := by
  intro exited
  by_cases negative : len.toInt < 0
  · rw [strncpy_negative negative] at exited
    cases exited
  · rw [strncpy] at exited
    simp only [if_neg negative] at exited
    rw [get_bind] at exited
    split at exited
    · rw [bind_error (throw_apply _ b)] at exited
      cases exited
    · rw [pure_apply] at exited
      cases exited

/-- The copied characters, padded, where they are all in the buffer. -/
theorem strncpy_inside {off : UInt32T} {len : BitVec 32} {b : MessageBuffer} {str : List Byte}
    (positive : ¬ len.toInt < 0) (front : (b.buffer.drop off.toNat).take len.toNat = str)
    (whole : str.length = len.toNat) :
    strncpy off len b =
      .ok (cString str ++ List.replicate (len.toNat - (cString str).length) 0) b := by
  have enough : ¬ (str.length < len.toNat ∧ 0 ∉ str) := by
    rw [whole]
    omega
  rw [strncpy]
  simp only [if_neg positive]
  rw [get_bind]
  simp only [front, if_neg enough]
  rw [pure_apply]

theorem cString_padded (str : List Byte) (k : Nat) :
    cString (cString str ++ List.replicate k 0 ++ [0]) = cString str := by
  have tail : List.replicate k (0 : Byte) ++ [0] = 0 :: List.replicate k 0 := by
    rw [← List.replicate_succ', List.replicate_succ]
  have none : (0 : Byte) ∉ cString str := by
    intro nul
    simpa using List.mem_takeWhile_imp nul
  rw [List.append_assoc, tail, cString, List.takeWhile_append_of_pos]
  · simp
  · intro c member
    have other : c ≠ 0 := by
      rintro rfl
      exact none member
    simpa using other

section string

variable {host : Host} {slen : UInt32T} {len : BitVec 32} {b c : MessageBuffer}

theorem MB_read_string_refused (length : MB_get_int32 host b = .ok len c)
    (refused : c.writeOffset < len + c.readOffset) :
    ∃ stderr, MB_read_string host slen b = .error (.exit stderr) c := by
  rw [MB_read_string, bind_ok length, get_bind]
  simp only [if_pos refused]
  exact ⟨_, bind_error (by rw [MB_error, get_bind, throw_apply])⟩

theorem MB_read_string_short (length : MB_get_int32 host b = .ok len c)
    (passes : ¬ c.writeOffset < len + c.readOffset) (short : ¬ len < slen) :
    ∃ stderr, MB_read_string host slen b = .error (.exit stderr) c := by
  rw [MB_read_string, bind_ok length, get_bind]
  simp only [if_neg passes, if_neg short]
  exact ⟨_, by rw [MB_error, get_bind, throw_apply]⟩

theorem MB_read_string_held {str : List Byte} {d : MessageBuffer}
    (length : MB_get_int32 host b = .ok len c)
    (passes : ¬ c.writeOffset < len + c.readOffset) (fits : len < slen)
    (held : strncpy c.readOffset len c = .ok str d) :
    MB_read_string host slen b = .ok (str ++ [0]) { d with readOffset := d.readOffset + len } := by
  rw [MB_read_string, bind_ok length, get_bind]
  simp only [if_neg passes, if_pos fits]
  rw [bind_ok held, modify_bind, pure_apply]

theorem MB_read_string_strays {stop : Stop} {d : MessageBuffer}
    (length : MB_get_int32 host b = .ok len c)
    (passes : ¬ c.writeOffset < len + c.readOffset) (fits : len < slen)
    (failed : strncpy c.readOffset len c = .error stop d) :
    MB_read_string host slen b = .error stop d := by
  rw [MB_read_string, bind_ok length, get_bind]
  simp only [if_neg passes, if_pos fits]
  exact bind_error failed

/-- A string with room in the caller's storage is never rejected. -/
theorem MB_read_string_quiet (length : MB_get_int32 host b = .ok len c)
    (passes : ¬ c.writeOffset < len + c.readOffset) (fits : len < slen) :
    ¬ exits ((do return Datum.string (cString (← MB_read_string host slen)) : Call Datum) b) := by
  cases copied : strncpy c.readOffset len c with
  | ok str d =>
    rw [bind_ok (MB_read_string_held length passes fits copied), pure_apply]
    exact id
  | error stop d =>
    rw [bind_error (MB_read_string_strays length passes fits copied)]
    cases stop with
    | exit stderr => exact absurd copied strncpy_quiet
    | outOfBounds => exact id

/-- A length that is not negative, of characters beyond the last 32-bit offset. -/
theorem read_string_outside (fit : Fit c) (length : read_int32 host b = .ok len c)
    (passes : ¬ c.writeOffset < len + c.readOffset) (positive : ¬ len.toInt < 0)
    (outside : 2 ^ 32 ≤ c.readOffset.toNat + len.toNat) :
    read_string host b = .error .outOfBounds c := by
  rw [read_string, bind_ok length, get_bind]
  simp only [if_neg passes]
  apply bind_error
  rw [assign]
  simp only [if_neg positive]
  rw [get_bind]
  exact copyFrom_outside fit outside

theorem read_string_negative (length : read_int32 host b = .ok len c)
    (passes : ¬ c.writeOffset < len + c.readOffset) (negative : len.toInt < 0) :
    read_string host b = .error .lengthError c := by
  rw [read_string, bind_ok length, get_bind]
  simp only [if_neg passes]
  apply bind_error
  rw [assign]
  simp only [if_pos negative]
  exact bind_error (throw_apply _ c)

end string

/-- A string that is in the buffer and fits into the storage. -/
theorem MB_read_string_whole {host : Host} {slen : UInt32T} {len : BitVec 32} {b : MessageBuffer}
    (fit : Fit b) (length : MB_get_int32 host b = .ok len (b.advance 4))
    (inside : b.readOffset.toNat + 4 ≤ b.writeOffset.toNat)
    (passes : ¬ (b.advance 4).writeOffset < len + (b.advance 4).readOffset)
    (positive : ¬ len.toInt < 0) (fits : len < slen)
    (all : b.readOffset.toNat + (4 + len.toNat) ≤ b.writeOffset.toNat) :
    MB_read_string host slen b =
      .ok (cString ((b.unread.drop 4).take len.toNat) ++
        List.replicate (len.toNat - (cString ((b.unread.drop 4).take len.toNat)).length) 0 ++ [0])
        (b.advance (4 + len.toNat)) := by
  have behind := readOffset_advance inside
  have front : ((b.advance 4).buffer.drop (b.advance 4).readOffset.toNat).take len.toNat =
      (b.unread.drop 4).take len.toNat := by
    rw [behind, unread, contents, List.drop_drop, List.drop_take, List.take_take,
      Nat.min_eq_left (by omega), MessageBuffer.advance]
  have whole : ((b.unread.drop 4).take len.toNat).length = len.toNat := by
    rw [List.length_take, List.length_drop, fit.length_unread]
    omega
  have held := strncpy_inside positive front whole
  have moved : { b.advance 4 with readOffset := (b.advance 4).readOffset + len } =
      b.advance (4 + len.toNat) := by
    rw [← advance_advance, MessageBuffer.advance, MessageBuffer.advance, BitVec.ofNat_toNat,
      BitVec.setWidth_eq]
  rw [MB_read_string_held length passes fits held, moved]

theorem corresponds_string {host : Host} {slen : UInt32T} {b : MessageBuffer} (fit : Fit b) :
    Corresponds (MB_read host (.string slen) b) (read host .string b) ↔
      Accords host (.string slen) b := by
  have same : Mirrors (MB_get_int32 host b) (read_int32 host b) :=
    retval_mirrors (MB_readScalars_mirrors host .int32 1 b)
  rw [MB_read, MessageBuffer.read, Accords]
  generalize copied : MB_get_int32 host b = r at same
  generalize original : read_int32 host b = r' at same
  cases same with
  | rejected stderr reason c =>
    have short : ¬ b.readOffset.toNat + 4 ≤ b.writeOffset.toNat := by
      intro inside
      rw [read_announced host fit inside] at original
      cases original
    have failed : read_string host b = .error (.MessageBufferError reason) c := bind_error original
    have failed' : MB_read_string host slen b = .error (.exit stderr) c := bind_error copied
    rw [bind_error failed, bind_error failed', corresponds_rejected]
    simp [short]
  | outOfBounds c =>
    have short : ¬ b.readOffset.toNat + 4 ≤ b.writeOffset.toNat := by
      intro inside
      rw [read_announced host fit inside] at original
      cases original
    have failed : read_string host b = .error .outOfBounds c := bind_error original
    have failed' : MB_read_string host slen b = .error .outOfBounds c := bind_error copied
    rw [bind_error failed, bind_error failed', corresponds_outOfBounds]
    simp [short, exits]
  | done len c =>
    obtain ⟨inside, here, moved⟩ := announced_read fit original
    subst here moved
    have behind := readOffset_advance inside
    have checked : (b.advance 4).writeOffset < announced host b + (b.advance 4).readOffset ↔
        b.writeOffset.toNat < (b.readOffset.toNat + 4 + (announced host b).toNat) % 2 ^ 32 := by
      rw [BitVec.lt_def, BitVec.toNat_add, Nat.add_comm, behind, advance_writeOffset]
    simp only [inside, true_imp_iff]
    by_cases refused : (b.advance 4).writeOffset < announced host b + (b.advance 4).readOffset
    · obtain ⟨reason, failed⟩ := read_string_refused original
        (by rw [behind, advance_writeOffset]; exact checked.mp refused)
      obtain ⟨stderr, failed'⟩ : ∃ stderr, MB_read_string host slen b =
          .error (.exit stderr) (b.advance 4) := MB_read_string_refused copied refused
      rw [bind_error failed, bind_error failed', corresponds_rejected]
      simp only [ne_eq, reduceCtorEq, not_false_eq_true, true_iff]
      exact Or.inl (checked.mp refused)
    have passed := mt checked.mpr refused
    simp only [passed, false_or]
    by_cases negative : (announced host b).toInt < 0
    · rw [bind_error (read_string_negative original refused negative), if_pos negative]
      by_cases fits : announced host b < slen
      · have large : ¬ slen ≤ announced host b := Nat.not_le_of_lt fits
        rw [bind_error (MB_read_string_strays copied refused fits (strncpy_negative negative))]
        simp [Corresponds, exits, throws, large]
      · obtain ⟨stderr, exited⟩ := MB_read_string_short copied refused fits
        have small : slen ≤ announced host b := Nat.le_of_not_lt fits
        rw [bind_error exited, corresponds_rejected]
        simp [small]
    rw [if_neg negative]
    by_cases all : b.readOffset.toNat + (4 + (announced host b).toNat) ≤ b.writeOffset.toNat
    · rw [bind_ok (read_string_ok fit original (by omega) all), pure_apply]
      by_cases fits : announced host b < slen
      · rw [bind_ok (MB_read_string_whole fit copied inside refused negative fits all), pure_apply,
          corresponds_done, cString_padded]
        simp [Datum.item, all, fits, cString_eq_iff]
      · obtain ⟨stderr, exited⟩ := MB_read_string_short copied refused fits
        rw [bind_error exited]
        simp [Corresponds, exits, throws, fits]
    · have outside : 2 ^ 32 ≤ (b.advance 4).readOffset.toNat + (announced host b).toNat := by
        by_contra small
        rw [behind] at small
        rw [Nat.mod_eq_of_lt (by omega)] at passed
        omega
      rw [bind_error (read_string_outside (fit.advance 4) original refused negative outside),
        corresponds_outOfBounds]
      by_cases fits : announced host b < slen
      · have quiet := MB_read_string_quiet copied refused fits
        simp only [fits, all, false_imp_iff, and_self, iff_true]
        exact quiet
      · obtain ⟨stderr, exited⟩ := MB_read_string_short copied refused fits
        rw [bind_error exited]
        simp [exits, fits]

theorem corresponds_iff {host : Host} {ask : Ask} {b : MessageBuffer} (fit : Fit b) :
    Corresponds (MB_read host ask b) (read host ask.request b) ↔ Accords host ask b := by
  cases ask with
  | scalars t n => exact iff_of_true (corresponds_scalars host t n b) trivial
  | bool => exact corresponds_bool fit
  | string slen => exact corresponds_string fit

/-! ### Sequences of reads -/

theorem Mirrors.done_too {α : Type} {r : EStateM.Result Stop MsgBuffer_t α} {a : α}
    {b : MessageBuffer} (same : Mirrors r (.ok a b)) : r = .ok a b := by
  cases same
  rfl

theorem string_done {host : Host} {str : List Byte} {b c : MessageBuffer} (fit : Fit b)
    (done : read_string host b = .ok str c) :
    read_int32 host b = .ok (announced host b) (b.advance 4) ∧
      b.readOffset.toNat + 4 ≤ b.writeOffset.toNat ∧
      ¬ (b.advance 4).writeOffset < announced host b + (b.advance 4).readOffset ∧
      ¬ (announced host b).toInt < 0 ∧
      b.readOffset.toNat + (4 + (announced host b).toNat) ≤ b.writeOffset.toNat ∧
      c = b.advance (4 + (announced host b).toNat) := by
  cases original : read_int32 host b with
  | error e d =>
    have failed : read_string host b = .error e d := bind_error original
    rw [failed] at done
    cases done
  | ok len d =>
    obtain ⟨inside, rfl, rfl⟩ := announced_read fit original
    have behind := readOffset_advance inside
    have checked : (b.advance 4).writeOffset < announced host b + (b.advance 4).readOffset ↔
        b.writeOffset.toNat < (b.readOffset.toNat + 4 + (announced host b).toNat) % 2 ^ 32 := by
      rw [BitVec.lt_def, BitVec.toNat_add, Nat.add_comm, behind, advance_writeOffset]
    have passes : ¬ (b.advance 4).writeOffset < announced host b + (b.advance 4).readOffset := by
      intro refused
      obtain ⟨reason, failed⟩ := read_string_refused original
        (by rw [behind, advance_writeOffset]; exact checked.mp refused)
      rw [failed] at done
      cases done
    have positive : ¬ (announced host b).toInt < 0 := by
      intro negative
      rw [read_string_negative original passes negative] at done
      cases done
    have all : b.readOffset.toNat + (4 + (announced host b).toNat) ≤ b.writeOffset.toNat := by
      by_contra beyond
      have outside : 2 ^ 32 ≤ (b.advance 4).readOffset.toNat + (announced host b).toNat := by
        by_contra small
        have passed := mt checked.mpr passes
        rw [behind] at small
        rw [Nat.mod_eq_of_lt (by omega)] at passed
        omega
      rw [read_string_outside (fit.advance 4) original passes positive outside] at done
      cases done
    rw [read_string_ok fit original (by omega) all] at done
    cases done
    exact ⟨rfl, inside, passes, positive, all, rfl⟩

/-- Where C++ returns, C returns too and leaves the same buffer. -/
theorem reads_too {host : Host} {ask : Ask} {item : Item} {b b' : MessageBuffer} (fit : Fit b)
    (accords : Accords host ask b) (done : read host ask.request b = .ok item b') :
    ∃ datum, MB_read host ask b = .ok datum b' := by
  cases ask with
  | scalars t n =>
    cases found : readScalars host t n b with
    | error e c =>
      rw [Ask.request, MessageBuffer.read, bind_error found] at done
      cases done
    | ok a c =>
      rw [Ask.request, MessageBuffer.read, bind_ok found, pure_apply] at done
      cases done
      have copied := (found ▸ MB_readScalars_mirrors host t n b).done_too
      exact ⟨.scalars t a.1, by rw [MB_read, bind_ok copied, pure_apply]⟩
  | bool =>
    cases found : read_uint8 b with
    | error e c =>
      have failed : read_bool b = .error e c := bind_error found
      rw [Ask.request, MessageBuffer.read, bind_error failed] at done
      cases done
    | ok x c =>
      have whole : read_bool b = .ok (1 == x) c := by rw [read_bool, bind_ok found, pure_apply]
      rw [Ask.request, MessageBuffer.read, bind_ok whole, pure_apply] at done
      cases done
      have same : Mirrors (MB_read_uint8 b) (read_uint8 b) :=
        retval_mirrors (MB_read_uint8s_mirrors 1 b)
      have copied := (found ▸ same).done_too
      exact ⟨.bool x, by rw [MB_read, MB_read_bool, bind_ok copied, pure_apply]⟩
  | string slen =>
    cases found : read_string host b with
    | error e c =>
      rw [Ask.request, MessageBuffer.read, bind_error found] at done
      cases done
    | ok str c =>
      rw [Ask.request, MessageBuffer.read, bind_ok found, pure_apply] at done
      cases done
      obtain ⟨length, inside, passes, positive, all, rfl⟩ := string_done fit found
      have same : Mirrors (MB_get_int32 host b) (read_int32 host b) :=
        retval_mirrors (MB_readScalars_mirrors host .int32 1 b)
      have copied := (length ▸ same).done_too
      have behind := readOffset_advance inside
      have passed : ¬ b.writeOffset.toNat <
          (b.readOffset.toNat + 4 + (announced host b).toNat) % 2 ^ 32 := by
        intro refused
        apply passes
        rw [BitVec.lt_def, BitVec.toNat_add, Nat.add_comm, behind, advance_writeOffset]
        exact refused
      have room := (accords inside).resolve_left passed
      rw [if_neg positive] at room
      exact ⟨_, by
        rw [MB_read, bind_ok (MB_read_string_whole fit copied inside passes positive room.1 all),
          pure_apply]⟩

theorem read_fit {host : Host} {request : Request} {item : Item} {b b' : MessageBuffer}
    (fit : Fit b) (done : read host request b = .ok item b') : Fit b' := by
  obtain ⟨off, same⟩ : SameMessage b (final (read host request b)) :=
    (read_only host request b).final ⟨b.readOffset, rfl⟩
  rw [done, final] at same
  rw [same]
  constructor
  · exact fit.sized
  · exact fit.inside

theorem alike_iff {host : Host} {asks : List Ask} {b : MessageBuffer} (fit : Fit b) :
    Alike host asks b b ↔ AccordsThroughout host asks b := by
  induction asks generalizing b with
  | nil => simp [Alike, AccordsThroughout]
  | cons ask rest ih =>
    rw [Alike, AccordsThroughout, corresponds_iff fit]
    apply and_congr_right
    intro accords
    constructor
    · intro later item b' done
      obtain ⟨datum, copied⟩ := reads_too fit accords done
      exact (ih (read_fit fit done)).mp (later datum b' item b' copied done)
    · intro later datum msg' item b' copied done
      obtain ⟨datum', copied'⟩ := reads_too fit accords done
      rw [copied] at copied'
      cases copied'
      exact (ih (read_fit fit done)).mpr (later item _ done)

/-! ## One codec -/

/-- The copies write the same bytes exactly when the new buffer's reserved bytes are cleared and
no string holds a NUL, and read the same values exactly when what is read accords throughout. -/
theorem codecs_agree_iff (host : Host) (capacity : UInt32T) (choice : Option Order)
    (data : List Datum) (asks : List Ask) (b : MessageBuffer)
    (small : totalSize (data.map Datum.item) < 2 ^ 31) (fit : Fit b) :
    (SameBytes host capacity choice data ↔
      capacity = 0 ∨ ClearsReserved host capacity ∧ ∀ str, .string str ∈ data → 0 ∉ str) ∧
    (Alike host asks b b ↔ AccordsThroughout host asks b) :=
  ⟨sameBytes_iff host capacity choice data small, alike_iff fit⟩

/-- A string with a NUL written into a buffer of one byte, and a boolean 2 read. -/
theorem codecs_agree_iff_two :
    totalSize ([.string [0x61, 0], .bool 2].map Datum.item) < 2 ^ 31 ∧
      Fit ⟨[0, 0, 0, 0, 0, 2], 6, true, 6, 5⟩ ∧
      (SameBytes ⟨false, fun _ => 0xff⟩ 1 (some .big) [.string [0x61, 0], .bool 2] ↔
        (1 : UInt32T) = 0 ∨ ClearsReserved ⟨false, fun _ => 0xff⟩ 1 ∧
          ∀ str, .string str ∈ [Datum.string [0x61, 0], .bool 2] → 0 ∉ str) ∧
      (Alike ⟨false, fun _ => 0xff⟩ [.bool] ⟨[0, 0, 0, 0, 0, 2], 6, true, 6, 5⟩
          ⟨[0, 0, 0, 0, 0, 2], 6, true, 6, 5⟩ ↔
        AccordsThroughout ⟨false, fun _ => 0xff⟩ [.bool] ⟨[0, 0, 0, 0, 0, 2], 6, true, 6, 5⟩) := by
  have small : totalSize ([.string [0x61, 0], .bool 2].map Datum.item) < 2 ^ 31 := by decide
  have fit : Fit ⟨[0, 0, 0, 0, 0, 2], 6, true, 6, 5⟩ := by
    constructor <;> decide
  exact ⟨small, fit, codecs_agree_iff _ _ _ _ _ _ small fit⟩

/-- The byte 2 is a true `bool_t` and a false `bool`. -/
theorem codecs_disagree :
    ¬ ∀ (host : Host) (capacity : UInt32T) (choice : Option Order) (data : List Datum)
        (asks : List Ask) (b : MessageBuffer),
      totalSize (data.map Datum.item) < 2 ^ 31 → Fit b →
        SameBytes host capacity choice data ∧ Alike host asks b b := by
  intro agree
  have fit : Fit ⟨[0, 0, 0, 0, 0, 2], 6, true, 6, 5⟩ := by
    constructor <;> decide
  obtain ⟨-, corresponds, -⟩ := agree ⟨false, fun _ => 0⟩ 255 none [] [.bool] _ (by decide) fit
  have accords := (corresponds_bool fit).mp corresponds
  exact absurd (accords 2 [] (by decide)) (by decide)

end Certi.MsgBuffer
