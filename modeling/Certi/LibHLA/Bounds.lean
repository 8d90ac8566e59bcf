import Certi.LibHLA.Frames

/-!
# Reads inside a received message

The bytes of a received buffer are the peer's, its size included. A read is
checked by adding its byte count to the read offset modulo 2^32; where the sum
wraps around, or a string's length is negative, the check can pass for a read
that is not in the message.
-/
namespace Certi.MessageBuffer

open Bytes Throwing

/-! ## What is asked of a read -/

/-- Where a refused read leaves the read offset: before the element whose data is missing. -/
def refusedAt (request : Request) (b : MessageBuffer) : Nat :=
  if request = .string ∧ b.readOffset.toNat + 4 ≤ b.writeOffset.toNat then b.readOffset.toNat + 4
  else b.readOffset.toNat

/-- The read is refused with `MessageBufferError`, or it consumes all that was asked for from
the bytes between the reserved ones and the write offset. -/
def Stays (host : Host) (request : Request) (b : MessageBuffer) : Prop :=
  match read host request b with
  | .ok item b' => item.request = request ∧ 5 ≤ b.readOffset.toNat ∧
      b'.readOffset.toNat = b.readOffset.toNat + item.size ∧
      b'.readOffset.toNat ≤ b.writeOffset.toNat
  | .error (.MessageBufferError _) b' => b'.readOffset.toNat = refusedAt request b
  | .error _ _ => False

/-- The sum of the check is not wrapped, or is too large even so. -/
def Unwrapped (count : Nat) (b : MessageBuffer) : Prop :=
  b.readOffset.toNat + count < 2 ^ 32 ∨
    b.writeOffset.toNat < (b.readOffset.toNat + count) % 2 ^ 32

/-- The length that a string at the read offset announces. -/
def announced (host : Host) (b : MessageBuffer) : BitVec 32 :=
  word (order host b) 32 (b.unread.take 4)

/-- The reads whose check decides rightly. -/
def Decided (host : Host) (request : Request) (b : MessageBuffer) : Prop :=
  match request with
  | .scalars t n => Unwrapped (t.width * n.toNat) b
  | .bool => Unwrapped 1 b
  | .string => Unwrapped 4 b ∧
      (b.readOffset.toNat + 4 ≤ b.writeOffset.toNat →
        Unwrapped (4 + (announced host b).toNat) b ∧
          (0 ≤ (announced host b).toInt ∨
            b.writeOffset.toNat < (b.readOffset.toNat + (4 + (announced host b).toNat)) % 2 ^ 32))

/-- `P` of every read of a sequence, in the buffer the reads before it leave. -/
def Along (host : Host) (P : Request → MessageBuffer → Prop) : List Request → MessageBuffer → Prop
  | [], _ => True
  | request :: rest, b => P request b ∧ Along host P rest (final (read host request b))

/-! ## Behind the check -/

/-- The only fault of what runs behind a check is an access outside of the allocation. -/
def Quiet {α : Type} (m : Access α) : Prop :=
  ∀ b e b', m b = .error e b' → e = .outOfBounds

theorem Quiet.pure {α : Type} (a : α) : Quiet (pure a : Access α) := by
  intro b e b' failed
  rw [pure_apply] at failed
  cases failed

theorem Quiet.bind {α β : Type} {m : Access α} {f : α → Access β} (first : Quiet m)
    (later : ∀ a, Quiet (f a)) : Quiet (m >>= f) := by
  intro b e b' failed
  cases reached : m b with
  | ok a c =>
    rw [bind_ok reached] at failed
    exact later a c e b' failed
  | error e' c =>
    rw [bind_error reached] at failed
    cases failed
    exact first b e b' reached

theorem Quiet.take (n : UInt32T) : Quiet (take n) := by
  intro b e b' failed
  rw [MessageBuffer.take, get_bind] at failed
  cases loaded : load b.buffer b.readOffset.toNat n.toNat with
  | none =>
    have copied : copyFrom b.readOffset n b = .error .outOfBounds b := by rw [copyFrom, loaded]
    rw [bind_error copied] at failed
    cases failed
    rfl
  | some bytes =>
    have copied : copyFrom b.readOffset n b = .ok bytes b := by rw [copyFrom, loaded]
    rw [bind_ok copied, modify_bind, pure_apply] at failed
    cases failed

theorem Quiet.times {α : Type} {body : Access α} (quiet : Quiet body) (n : Nat) :
    Quiet (times body n) := by
  induction n with
  | zero => exact Quiet.pure []
  | succ n ih => exact quiet.bind fun x => ih.bind fun rest => Quiet.pure (x :: rest)

/-- A read of `n` elements of `w` bytes: the check, then something quiet. -/
def Checked {α : Type} (w : Nat) (n : UInt32T) (read : Access α) : Prop :=
  ∀ b, (b.writeOffset < BitVec.ofNat 32 w * n + b.readOffset →
      ∃ reason, read b = .error (.MessageBufferError reason) b) ∧
    (¬ b.writeOffset < BitVec.ofNat 32 w * n + b.readOffset →
      ∃ body : Access α, Quiet body ∧ read b = body b)

theorem readWords_checked {bits : Nat} {host : Host} {name : String} {size : UInt32T} {w : Nat}
    {swapped : Access (BitVec bits)} (quiet : Quiet swapped) (n : UInt32T) :
    Checked w n (readWords host name size w swapped n) := by
  intro b
  constructor
  · intro refused
    rw [readWords, get_bind]
    simp only [if_pos refused]
    exact ⟨_, bind_error (throw_apply _ b)⟩
  · intro passes
    have offset : Quiet (get : Access MessageBuffer) := by
      intro b e b' failed
      cases failed
    rw [readWords, get_bind]
    simp only [if_neg passes]
    cases b.bufferHasMyEndianness with
    | true =>
      refine ⟨_, ?_, rfl⟩
      exact (Quiet.take _).bind fun copied => (Quiet.pure _).bind fun data =>
        offset.bind fun b => Quiet.pure _
    | false =>
      refine ⟨_, ?_, rfl⟩
      exact (quiet.times _).bind fun data => offset.bind fun b => Quiet.pure _

theorem read_uint8s_checked (n : UInt32T) : Checked 1 n (read_uint8s n) := by
  intro b
  have once : BitVec.ofNat 32 1 * n = n := by simp
  rw [once]
  constructor
  · intro refused
    rw [read_uint8s, get_bind]
    simp only [if_pos refused]
    exact ⟨_, bind_error (throw_apply _ b)⟩
  · intro passes
    have offset : Quiet (get : Access MessageBuffer) := by
      intro b e b' failed
      cases failed
    rw [read_uint8s, get_bind]
    simp only [if_neg passes]
    refine ⟨_, ?_, rfl⟩
    exact (Quiet.take _).bind fun data => offset.bind fun b => Quiet.pure _

theorem readScalars_checked (host : Host) (t : Scalar) (n : UInt32T) :
    Checked t.width n (readScalars host t n) := by
  have halves : Checked 2 n (read_uint16s host n) :=
    readWords_checked ((Quiet.take 2).bind fun bytes => Quiet.pure _) n
  have words : Checked 4 n (read_uint32s host n) :=
    readWords_checked ((Quiet.take 4).bind fun bytes => Quiet.pure _) n
  have doubles : Checked 8 n (read_uint64s host n) :=
    readWords_checked
      ((Quiet.take 4).bind fun second => (Quiet.take 4).bind fun first => Quiet.pure _) n
  cases t with
  | uint8 => exact read_uint8s_checked n
  | int8 => exact read_uint8s_checked n
  | char => exact read_uint8s_checked n
  | uint16 => exact halves
  | int16 => exact halves
  | uint32 => exact words
  | int32 => exact words
  | float => exact words
  | uint64 => exact doubles
  | int64 => exact doubles
  | double => exact doubles

theorem check_eq {w : Nat} {n : UInt32T} {b : MessageBuffer} :
    b.writeOffset < BitVec.ofNat 32 w * n + b.readOffset ↔
      b.writeOffset.toNat < (b.readOffset.toNat + w * n.toNat) % 2 ^ 32 := by
  rw [BitVec.lt_def, BitVec.toNat_add, toNat_bytes, Nat.mod_add_mod, Nat.add_comm]

/-! ## One read -/

/-- What the reads of a message keep. -/
structure Reading (b : MessageBuffer) : Prop where
  fit : Fit b
  reserved : 5 ≤ b.readOffset.toNat
  ahead : b.readOffset.toNat ≤ b.writeOffset.toNat

theorem Unwrapped.cases {count : Nat} {b : MessageBuffer} (unwrapped : Unwrapped count b) :
    b.readOffset.toNat + count ≤ b.writeOffset.toNat ∨
      b.writeOffset.toNat < (b.readOffset.toNat + count) % 2 ^ 32 := by
  rcases unwrapped with small | refused
  · rw [Nat.mod_eq_of_lt small]
    omega
  · exact Or.inr refused

theorem stays_scalars {host : Host} {t : Scalar} {n : UInt32T} {b : MessageBuffer}
    (reading : Reading b) :
    Stays host (.scalars t n) b ↔ Unwrapped (t.width * n.toNat) b := by
  obtain ⟨refuses, passes⟩ := readScalars_checked host t n b
  rw [check_eq] at refuses passes
  constructor
  · intro stays
    by_cases refused : b.writeOffset.toNat < (b.readOffset.toNat + t.width * n.toNat) % 2 ^ 32
    · exact Or.inr refused
    · obtain ⟨body, quiet, same⟩ := passes refused
      refine Or.inl ?_
      rw [Stays, read] at stays
      cases done : body b with
      | ok found c =>
        rw [bind_ok (same.trans done), pure_apply] at stays
        obtain ⟨asked, -, consumed, inside⟩ := stays
        simp only [Item.size] at consumed
        have bound := b.writeOffset.isLt
        have wide : 0 < t.width := by cases t <;> simp [Scalar.width]
        have fewer : found.1.length ≤ t.width * found.1.length := Nat.le_mul_of_pos_left _ wide
        have count : BitVec.ofNat 32 found.1.length = n := by
          simpa only [Item.request, Request.scalars.injEq, true_and] using asked
        rw [← count, toNat_ofNat (by omega)]
        omega
      | error e c =>
        rw [bind_error (same.trans done), quiet b e c done] at stays
        exact absurd stays id
  · intro unwrapped
    rcases unwrapped.cases with inside | refused
    · obtain ⟨data, off, done, length, -⟩ := readScalars_ok host reading.fit inside
      rw [Stays, read, bind_ok done, pure_apply]
      have advanced := readOffset_advance inside
      refine ⟨?_, reading.reserved, ?_, ?_⟩
      · rw [Item.request, length, BitVec.ofNat_toNat, BitVec.setWidth_eq]
      · rw [advanced, Item.size, length]
      · omega
    · obtain ⟨reason, failed⟩ := refuses refused
      rw [Stays, read, bind_error failed]
      simp [refusedAt]

theorem retval_checked {bits w : Nat} {read : Access (List (BitVec bits) × UInt32T)}
    (checked : Checked w 1 read) : Checked w 1 (retval read) := by
  intro b
  obtain ⟨refuses, passes⟩ := checked b
  constructor
  · intro refused
    obtain ⟨reason, failed⟩ := refuses refused
    exact ⟨reason, bind_error failed⟩
  · intro passed
    obtain ⟨body, quiet, same⟩ := passes passed
    refine ⟨body >>= fun found => pure (found.1.headD 0), quiet.bind fun found => Quiet.pure _, ?_⟩
    simp only [retval, bind, EStateM.bind, same]

theorem stays_bool {host : Host} {b : MessageBuffer} (reading : Reading b) :
    Stays host .bool b ↔ Unwrapped 1 b := by
  obtain ⟨refuses, passes⟩ := retval_checked (read_uint8s_checked 1) b
  rw [check_eq] at refuses passes
  have one : 1 * BitVec.toNat (1 : UInt32T) = 1 := by simp
  rw [one] at refuses passes
  constructor
  · intro stays
    by_cases refused : b.writeOffset.toNat < (b.readOffset.toNat + 1) % 2 ^ 32
    · exact Or.inr refused
    · obtain ⟨body, quiet, same⟩ := passes refused
      refine Or.inl ?_
      rw [Stays, read, read_bool, read_uint8] at stays
      cases done : body b with
      | ok found c =>
        rw [bind_assoc, bind_ok (same.trans done), pure_bind, pure_apply] at stays
        obtain ⟨-, -, consumed, inside⟩ := stays
        simp only [Item.size] at consumed
        have bound := b.writeOffset.isLt
        omega
      | error e c =>
        rw [bind_assoc, bind_error (same.trans done), quiet b e c done] at stays
        exact absurd stays id
  · intro unwrapped
    rcases unwrapped.cases with inside | refused
    · obtain ⟨x, done, -⟩ := retval_ok (read_uint8s_ok (n := 1) host reading.fit
        (by rw [one]; exact inside))
      have advanced := readOffset_advance inside
      rw [Stays, read, read_bool, read_uint8, bind_assoc, bind_ok done, pure_bind, pure_apply]
      refine ⟨by rw [Item.request], reading.reserved, ?_, ?_⟩
      · rw [advanced, Item.size]
      · omega
    · obtain ⟨reason, failed⟩ := refuses refused
      rw [Stays, read, read_bool, read_uint8, bind_assoc, bind_error failed]
      simp [refusedAt]

/-- The length of a string, where it is there. -/
theorem read_announced {b : MessageBuffer} (host : Host) (fit : Fit b)
    (inside : b.readOffset.toNat + 4 ≤ b.writeOffset.toNat) :
    read_int32 host b = .ok (announced host b) (b.advance 4) := by
  obtain ⟨len, done, same⟩ := retval_ok (read_uint32s_ok (n := 1) host fit
    (by simpa using inside))
  have length : (b.unread.take 4).length = 4 := by
    rw [List.length_take, fit.length_unread]
    omega
  have here : len = announced host b := by
    apply same _ (b.unread.drop 4)
    rw [announced, layout_word _ (by omega) length, List.take_append_drop]
  rw [← here]
  exact done

theorem copyFrom_outside {b : MessageBuffer} {off n : UInt32T} (fit : Fit b)
    (outside : 2 ^ 32 ≤ off.toNat + n.toNat) : copyFrom off n b = .error .outOfBounds b := by
  have bound := b.bufferMaxSize.isLt
  have sized := fit.sized
  have missing : load b.buffer off.toNat n.toNat = none := by
    rw [load, if_neg (by omega)]
  rw [copyFrom, missing]

/-- A length whose bytes would lie across the wrapped offset is not read. -/
theorem read_int32_outside {b : MessageBuffer} (host : Host) (fit : Fit b)
    (outside : 2 ^ 32 ≤ b.readOffset.toNat + 4)
    (passed : ¬ b.writeOffset.toNat < (b.readOffset.toNat + 4) % 2 ^ 32) :
    read_int32 host b = .error .outOfBounds b := by
  have passes : ¬ b.writeOffset < BitVec.ofNat 32 4 * 1 + b.readOffset := by
    rw [check_eq]
    simpa using passed
  have missing : take 4 b = .error .outOfBounds b := by
    rw [take, get_bind]
    exact bind_error (copyFrom_outside fit outside)
  rw [read_int32, retval]
  apply bind_error
  rw [read_int32s, read_uint32s, readWords, get_bind]
  simp only [if_neg passes]
  cases b.bufferHasMyEndianness with
  | true => exact bind_error missing
  | false =>
    have swapped : times (do
        let bytes ← take 4
        return LIBHLA_UINT32_SWAP_BYTES (word host.order 32 bytes)) 1 b =
          .error .outOfBounds b := by
      rw [times]
      exact bind_error (bind_error missing)
    exact bind_error swapped

theorem read_string_refused {host : Host} {len : BitVec 32} {b c : MessageBuffer}
    (length : read_int32 host b = .ok len c)
    (refused : c.writeOffset.toNat < (c.readOffset.toNat + len.toNat) % 2 ^ 32) :
    ∃ reason, read_string host b = .error (.MessageBufferError reason) c := by
  have checked : c.writeOffset < len + c.readOffset := by
    rwa [BitVec.lt_def, BitVec.toNat_add, Nat.add_comm]
  rw [read_string, bind_ok length, get_bind]
  simp only [if_pos checked]
  exact ⟨_, bind_error (throw_apply _ c)⟩

/-- A length that the check lets through, and that is negative or wraps around. -/
theorem read_string_strays {host : Host} {len : BitVec 32} {b c : MessageBuffer} (fit : Fit c)
    (length : read_int32 host b = .ok len c)
    (passed : ¬ c.writeOffset.toNat < (c.readOffset.toNat + len.toNat) % 2 ^ 32)
    (stray : len.toInt < 0 ∨ 2 ^ 32 ≤ c.readOffset.toNat + len.toNat) :
    read_string host b = .error .lengthError c ∨ read_string host b = .error .outOfBounds c := by
  have passes : ¬ c.writeOffset < len + c.readOffset := by
    rwa [BitVec.lt_def, BitVec.toNat_add, Nat.add_comm]
  rw [read_string, bind_ok length, get_bind]
  simp only [if_neg passes]
  by_cases negative : len.toInt < 0
  · left
    apply bind_error
    rw [assign]
    simp only [if_pos negative]
    exact bind_error (throw_apply _ c)
  · right
    apply bind_error
    rw [assign]
    simp only [if_neg negative]
    rw [get_bind]
    exact copyFrom_outside fit (stray.resolve_left negative)

theorem stays_string {host : Host} {b : MessageBuffer} (reading : Reading b) :
    Stays host .string b ↔ Decided host .string b := by
  have bound := b.writeOffset.isLt
  obtain ⟨refuses, -⟩ := retval_checked (readScalars_checked host .int32 1) b
  rw [check_eq] at refuses
  have four : Scalar.int32.width * BitVec.toNat (1 : UInt32T) = 4 := by simp [Scalar.width]
  rw [four] at refuses
  have refusal (refused : b.writeOffset.toNat < (b.readOffset.toNat + 4) % 2 ^ 32) :
      ∃ reason, read host .string b = .error (.MessageBufferError reason) b := by
    obtain ⟨reason, failed⟩ := refuses refused
    refine ⟨reason, ?_⟩
    rw [read]
    exact bind_error (bind_error failed)
  by_cases refused : b.writeOffset.toNat < (b.readOffset.toNat + 4) % 2 ^ 32
  · have short : ¬ b.readOffset.toNat + 4 ≤ b.writeOffset.toNat := by
      intro inside
      rw [Nat.mod_eq_of_lt (by omega)] at refused
      omega
    obtain ⟨reason, failed⟩ := refusal refused
    constructor
    · intro _
      exact ⟨Or.inr refused, fun inside => absurd inside short⟩
    · intro _
      rw [Stays, failed]
      simp [refusedAt, short]
  by_cases inside : b.readOffset.toNat + 4 ≤ b.writeOffset.toNat
  · have length := read_announced host reading.fit inside
    have behind := readOffset_advance inside
    have total : b.readOffset.toNat + (4 + (announced host b).toNat) =
        (b.advance 4).readOffset.toNat + (announced host b).toNat := by omega
    have unwrapped : Unwrapped 4 b := Or.inl (by omega)
    rw [Decided, total]
    by_cases refused' : b.writeOffset.toNat <
        ((b.advance 4).readOffset.toNat + (announced host b).toNat) % 2 ^ 32
    · obtain ⟨reason, failed⟩ := read_string_refused length refused'
      constructor
      · intro _
        refine ⟨unwrapped, fun _ => ⟨Or.inr ?_, Or.inr refused'⟩⟩
        rw [total]
        exact refused'
      · intro _
        rw [Stays, read, bind_error failed]
        simp [refusedAt, inside, behind]
    · by_cases stray : (announced host b).toInt < 0 ∨
          2 ^ 32 ≤ (b.advance 4).readOffset.toNat + (announced host b).toNat
      · have strays := read_string_strays (reading.fit.advance 4) length refused' stray
        constructor
        · intro stays
          rw [Stays, read] at stays
          rcases strays with failed | failed
          · rw [bind_error failed] at stays
            exact absurd stays id
          · rw [bind_error failed] at stays
            exact absurd stays id
        · rintro ⟨-, decided⟩
          obtain ⟨small, positive⟩ := decided inside
          rcases stray with negative | large
          · have positive' := positive.resolve_right refused'
            omega
          · rcases small with small | refused''
            · omega
            · rw [total] at refused''
              exact absurd refused'' refused'
      · have positive : 0 ≤ (announced host b).toInt := by omega
        have small : b.readOffset.toNat + (4 + (announced host b).toNat) < 2 ^ 32 := by omega
        have whole : b.readOffset.toNat + (4 + (announced host b).toNat) ≤ b.writeOffset.toNat := by
          rw [← total, Nat.mod_eq_of_lt small] at refused'
          omega
        have done := read_string_ok reading.fit length positive whole
        have chars : ((b.unread.drop 4).take (announced host b).toNat).length =
            (announced host b).toNat := by
          rw [List.length_take, List.length_drop, reading.fit.length_unread]
          omega
        constructor
        · intro _
          exact ⟨unwrapped, fun _ => ⟨Or.inl small, Or.inl positive⟩⟩
        · intro _
          have advanced := readOffset_advance whole
          rw [Stays, read, bind_ok done, pure_apply]
          refine ⟨by rw [Item.request], reading.reserved, ?_, ?_⟩
          · rw [advanced, Item.size, chars]
          · omega
  · have outside : 2 ^ 32 ≤ b.readOffset.toNat + 4 := by
      by_contra small
      rw [Nat.mod_eq_of_lt (by omega)] at refused
      omega
    have failed := read_int32_outside host reading.fit outside refused
    constructor
    · intro stays
      have failed' : read_string host b = .error .outOfBounds b := bind_error failed
      rw [Stays, read, bind_error failed'] at stays
      exact absurd stays id
    · rintro ⟨unwrapped, -⟩
      rcases unwrapped with small | refused'
      · omega
      · exact absurd refused' refused

theorem stays_iff_decided {host : Host} {request : Request} {b : MessageBuffer}
    (reading : Reading b) : Stays host request b ↔ Decided host request b := by
  cases request with
  | scalars t n => exact stays_scalars reading
  | bool => exact stays_bool reading
  | string => exact stays_string reading

/-! ## Sequences of reads -/

/-- `b` with the read offset somewhere else. -/
def SameMessage (b c : MessageBuffer) : Prop :=
  ∃ off : UInt32T, c = { b with readOffset := off }

/-- A program that moves nothing but the read offset. -/
def OnlyReads {α : Type} (m : Access α) : Prop :=
  ∀ b : MessageBuffer, Spec (SameMessage b) m (fun _ => SameMessage b) (SameMessage b)

theorem OnlyReads.pure {α : Type} (a : α) : OnlyReads (pure a : Access α) :=
  fun _ => spec_pure fun _ kept => kept

theorem OnlyReads.get : OnlyReads (get : Access MessageBuffer) :=
  fun _ _ kept => kept

theorem OnlyReads.throw {α : Type} (e : Fault) : OnlyReads (throw e : Access α) :=
  fun _ _ kept => kept

theorem OnlyReads.bind {α β : Type} {m : Access α} {f : α → Access β} (first : OnlyReads m)
    (later : ∀ a, OnlyReads (f a)) : OnlyReads (m >>= f) :=
  fun b => spec_bind (first b) fun a => later a b

theorem OnlyReads.move (f : MessageBuffer → UInt32T) :
    OnlyReads (modify fun b => { b with readOffset := f b } : Access Unit) := by
  rintro b c ⟨off, rfl⟩
  exact ⟨f { b with readOffset := off }, rfl⟩

theorem OnlyReads.copyFrom (off n : UInt32T) : OnlyReads (copyFrom off n) := by
  rintro b c ⟨at', rfl⟩
  rw [MessageBuffer.copyFrom]
  cases load b.buffer off.toNat n.toNat with
  | none => exact ⟨at', rfl⟩
  | some bytes => exact ⟨at', rfl⟩

theorem OnlyReads.take (n : UInt32T) : OnlyReads (take n) :=
  OnlyReads.get.bind fun b => (OnlyReads.copyFrom b.readOffset n).bind fun bytes =>
    (OnlyReads.move fun b => b.readOffset + n).bind fun _ => OnlyReads.pure bytes

theorem OnlyReads.times {α : Type} {body : Access α} (only : OnlyReads body) (n : Nat) :
    OnlyReads (times body n) := by
  induction n with
  | zero => exact OnlyReads.pure []
  | succ n ih => exact only.bind fun x => ih.bind fun rest => OnlyReads.pure (x :: rest)

theorem readWords_only {bits : Nat} {host : Host} {name : String} {size : UInt32T} {w : Nat}
    {swapped : Access (BitVec bits)} (only : OnlyReads swapped) (n : UInt32T) :
    OnlyReads (readWords host name size w swapped n) := by
  refine OnlyReads.get.bind fun b => ?_
  have back (data : List (BitVec bits)) : OnlyReads (do
      return (data, (← get).readOffset - BitVec.ofNat 32 w * n)) :=
    OnlyReads.get.bind fun c => OnlyReads.pure _
  by_cases refused : b.writeOffset < BitVec.ofNat 32 w * n + b.readOffset
  · simp only [if_pos refused]
    exact (OnlyReads.throw _).bind fun _ => by
      cases b.bufferHasMyEndianness with
      | true => exact (OnlyReads.take _).bind fun copied => (OnlyReads.pure _).bind back
      | false => exact (only.times _).bind back
  · simp only [if_neg refused]
    cases b.bufferHasMyEndianness with
    | true => exact (OnlyReads.take _).bind fun copied => (OnlyReads.pure _).bind back
    | false => exact (only.times _).bind back

theorem read_uint8s_only (n : UInt32T) : OnlyReads (read_uint8s n) := by
  refine OnlyReads.get.bind fun b => ?_
  have back (data : List Byte) : OnlyReads (do return (data, (← get).readOffset - n)) :=
    OnlyReads.get.bind fun c => OnlyReads.pure _
  by_cases refused : b.writeOffset < n + b.readOffset
  · simp only [if_pos refused]
    exact (OnlyReads.throw _).bind fun _ => (OnlyReads.take n).bind back
  · simp only [if_neg refused]
    exact (OnlyReads.take n).bind back

theorem readScalars_only (host : Host) (t : Scalar) (n : UInt32T) :
    OnlyReads (readScalars host t n) := by
  have halves : OnlyReads (read_uint16s host n) :=
    readWords_only ((OnlyReads.take 2).bind fun bytes => OnlyReads.pure _) n
  have words : OnlyReads (read_uint32s host n) :=
    readWords_only ((OnlyReads.take 4).bind fun bytes => OnlyReads.pure _) n
  have doubles : OnlyReads (read_uint64s host n) :=
    readWords_only
      ((OnlyReads.take 4).bind fun second => (OnlyReads.take 4).bind fun first =>
        OnlyReads.pure _) n
  cases t with
  | uint8 => exact read_uint8s_only n
  | int8 => exact read_uint8s_only n
  | char => exact read_uint8s_only n
  | uint16 => exact halves
  | int16 => exact halves
  | uint32 => exact words
  | int32 => exact words
  | float => exact words
  | uint64 => exact doubles
  | int64 => exact doubles
  | double => exact doubles

theorem read_string_only (host : Host) : OnlyReads (read_string host) := by
  have chars (len : BitVec 32) : OnlyReads (assign len) := by
    rw [assign]
    by_cases negative : len.toInt < 0
    · simp only [if_pos negative]
      exact (OnlyReads.throw _).bind fun _ =>
        OnlyReads.get.bind fun b => OnlyReads.copyFrom b.readOffset len
    · simp only [if_neg negative]
      exact OnlyReads.get.bind fun b => OnlyReads.copyFrom b.readOffset len
  have length : OnlyReads (read_int32 host) :=
    (readScalars_only host .int32 1).bind fun found => OnlyReads.pure _
  have rest (len : BitVec 32) : OnlyReads (do
      let s ← assign len
      modify fun b => { b with readOffset := b.readOffset + len }
      return s) :=
    (chars len).bind fun s => (OnlyReads.move fun b => b.readOffset + len).bind fun _ =>
      OnlyReads.pure s
  refine length.bind fun len => OnlyReads.get.bind fun b => ?_
  by_cases refused : b.writeOffset < len + b.readOffset
  · simp only [if_pos refused]
    exact (OnlyReads.throw _).bind fun _ => rest len
  · simp only [if_neg refused]
    exact rest len

theorem read_only (host : Host) (request : Request) : OnlyReads (read host request) := by
  cases request with
  | scalars t n => exact (readScalars_only host t n).bind fun found => OnlyReads.pure _
  | bool =>
    exact (((read_uint8s_only 1).bind fun found => OnlyReads.pure _).bind
      fun byte => OnlyReads.pure _).bind fun toggle => OnlyReads.pure _
  | string => exact (read_string_only host).bind fun str => OnlyReads.pure _

/-- The step: a read that stays inside leaves a buffer to read on from. -/
theorem Stays.reading {host : Host} {request : Request} {b : MessageBuffer} (reading : Reading b)
    (stays : Stays host request b) : Reading (final (read host request b)) := by
  obtain ⟨off, same⟩ : SameMessage b (final (read host request b)) :=
    (read_only host request b).final ⟨b.readOffset, rfl⟩
  have bounds : 5 ≤ (final (read host request b)).readOffset.toNat ∧
      (final (read host request b)).readOffset.toNat ≤ b.writeOffset.toNat := by
    have reserved := reading.reserved
    have ahead := reading.ahead
    rw [Stays] at stays
    cases done : read host request b with
    | ok item c =>
      rw [done] at stays
      obtain ⟨-, -, consumed, inside⟩ := stays
      rw [final]
      omega
    | error e c =>
      rw [done] at stays
      cases e with
      | MessageBufferError reason =>
        simp only [refusedAt] at stays
        rw [final]
        split at stays <;> omega
      | NetworkError reason => exact absurd stays id
      | lengthError => exact absurd stays id
      | outOfBounds => exact absurd stays id
  rw [same] at bounds ⊢
  constructor
  · constructor
    · exact reading.fit.sized
    · exact reading.fit.inside
  · exact bounds.1
  · exact bounds.2

/-- The run: all reads of a sequence stay inside as long as each is decided rightly. -/
theorem along_stays {host : Host} {requests : List Request} {b : MessageBuffer}
    (reading : Reading b) :
    Along host (Stays host) requests b ↔ Along host (Decided host) requests b := by
  induction requests generalizing b with
  | nil => simp [Along]
  | cons request rest ih =>
    rw [Along, Along, stays_iff_decided reading]
    apply and_congr_right
    intro decided
    exact ih (((stays_iff_decided reading).mpr decided).reading reading)

/-! ## Received frames -/

/-- A frame is refused with `MessageBufferError`, or it declares at least the reserved bytes and
every read of it stays inside; a peer may close before the declared size has arrived. -/
def FrameStays (host : Host) (b : MessageBuffer) (head rest : List Byte)
    (requests : List Request) : Prop :=
  match receive host (head ++ rest) b with
  | .ok _ c => 5 ≤ (declaredSize head).toNat ∧ Along host (Stays host) requests c
  | .error (.MessageBufferError _) _ => True
  | .error (.NetworkError _) _ => 5 ≤ (declaredSize head).toNat
  | .error _ _ => False

theorem receiveBytes_quiet (incoming : List Byte) (off n : UInt32T) (b b' : MessageBuffer)
    (reason : String) : receiveBytes incoming off n b ≠ .error (.MessageBufferError reason) b' := by
  intro failed
  rw [receiveBytes] at failed
  cases stored : store b.buffer off.toNat (incoming.take n.toNat) with
  | none =>
    have copied : copyInto off (incoming.take n.toNat) b = .error .outOfBounds b := by
      rw [copyInto, stored]
    rw [bind_error copied] at failed
    cases failed
  | some memory =>
    have copied : copyInto off (incoming.take n.toNat) b = .ok () { b with buffer := memory } := by
      rw [copyInto, stored]
    rw [bind_ok copied] at failed
    by_cases short : incoming.length < n.toNat
    · simp only [if_pos short] at failed
      rw [bind_error (throw_apply _ _)] at failed
      cases failed
    · simp only [if_neg short, pure_apply] at failed
      cases failed

/-- What arrives fits into the allocation. -/
theorem receiveBytes_room {n : UInt32T} {b : MessageBuffer} (incoming : List Byte)
    (off : UInt32T) (fit : Fit b)
    (room : off.toNat + n.toNat ≤ b.bufferMaxSize.toNat) :
    ∃ memory, memory.length = b.buffer.length ∧
      receiveBytes incoming off n b =
        if incoming.length < n.toNat then
          .error (.NetworkError "Connection closed by client.") { b with buffer := memory }
        else .ok (incoming.drop n.toNat) { b with buffer := memory } := by
  obtain ⟨memory, copied, length, -, -⟩ :=
    copyInto_ok off (incoming.take n.toNat) fit.sized
      (by rw [List.length_take]; omega)
  refine ⟨memory, length, ?_⟩
  rw [receiveBytes, bind_ok copied]
  by_cases short : incoming.length < n.toNat
  · simp only [if_pos short]
    exact bind_error (throw_apply _ _)
  · simp only [if_neg short, pure_apply]

/-- Every frame is dealt with as asked exactly when its declared size covers the reserved
bytes, and along the reads of the message no check wraps around unnoticed. -/
theorem frame_stays_iff (host : Host) (b : MessageBuffer) (head rest : List Byte)
    (requests : List Request) (fit : Fit b) (room : 5 < b.bufferMaxSize.toNat)
    (length : head.length = 5) :
    FrameStays host b head rest requests ↔
      5 ≤ (declaredSize head).toNat ∧ ∀ more c, receive host (head ++ rest) b = .ok more c →
        Along host (Decided host) requests c := by
  obtain ⟨c, received, fit₁, -, written, reading, -⟩ :=
    receive_eq host rest fit room length
  rw [FrameStays, received]
  by_cases covers : 5 ≤ (declaredSize head).toNat
  · have five : BitVec.toNat reservedBytes = 5 := by simp [reservedBytes]
    have bound := (declaredSize head).isLt
    have left : (declaredSize head - reservedBytes).toNat = (declaredSize head).toNat - 5 := by
      rw [BitVec.toNat_sub, five]
      omega
    have inside := fit₁.inside
    rw [written] at inside
    obtain ⟨memory, long, ends⟩ := receiveBytes_room
      (n := declaredSize head - reservedBytes) rest reservedBytes fit₁ (by rw [five, left]; omega)
    rw [ends]
    by_cases short : rest.length < (declaredSize head - reservedBytes).toNat
    · simp only [if_pos short]
      constructor
      · intro _
        refine ⟨covers, ?_⟩
        intro more d done
        cases done
      · intro _
        exact covers
    · have start : Reading { c with buffer := memory } := by
        constructor
        · constructor
          · exact long.trans fit₁.sized
          · exact fit₁.inside
        · simp [reading]
        · simp only [reading, written]
          exact covers
      simp only [if_neg short]
      constructor
      · rintro ⟨-, stays⟩
        refine ⟨covers, ?_⟩
        intro more d done
        cases done
        exact (along_stays start).mp stays
      · rintro ⟨-, decided⟩
        exact ⟨covers, (along_stays start).mpr (decided _ _ rfl)⟩
  · constructor
    · intro stays
      cases done : receiveBytes rest reservedBytes (declaredSize head - reservedBytes) c with
      | ok more d =>
        rw [done] at stays
        exact absurd stays.1 covers
      | error e d =>
        rw [done] at stays
        cases e with
        | MessageBufferError reason => exact absurd done (receiveBytes_quiet _ _ _ _ _ _)
        | NetworkError reason => exact absurd stays covers
        | lengthError => exact absurd stays id
        | outOfBounds => exact absurd stays id
    · rintro ⟨declared, -⟩
      exact absurd declared covers

theorem frame_stays_iff_nine :
    Fit ⟨[0, 0, 0, 0, 0, 0], 6, true, 5, 5⟩ ∧
      (FrameStays ⟨false, fun _ => 0⟩ ⟨[0, 0, 0, 0, 0, 0], 6, true, 5, 5⟩ [0, 9, 0, 0, 0]
          [7, 0, 0, 0] [.scalars .uint32 1, .bool] ↔
        5 ≤ (declaredSize [0, 9, 0, 0, 0]).toNat ∧
          ∀ more c, receive ⟨false, fun _ => 0⟩ ([0, 9, 0, 0, 0] ++ [7, 0, 0, 0])
              ⟨[0, 0, 0, 0, 0, 0], 6, true, 5, 5⟩ = .ok more c →
            Along ⟨false, fun _ => 0⟩ (Decided ⟨false, fun _ => 0⟩)
              [.scalars .uint32 1, .bool] c) := by
  have fit : Fit ⟨[0, 0, 0, 0, 0, 0], 6, true, 5, 5⟩ := by
    constructor <;> decide
  exact ⟨fit, frame_stays_iff _ _ _ _ _ fit (by decide) (by decide)⟩

/-- A string of length -1, nine bytes in all: the check adds -1 to the read offset and passes,
and `std::string::assign` throws an exception that is not a `MessageBufferError`. -/
theorem negative_length_strays :
    ¬ ∀ (host : Host) (b : MessageBuffer) (head rest : List Byte) (requests : List Request),
      Fit b → 5 < b.bufferMaxSize.toNat → head.length = 5 →
        FrameStays host b head rest requests := by
  intro stays
  have fit : Fit ⟨[0, 0, 0, 0, 0, 0], 6, true, 5, 5⟩ := by
    constructor <;> decide
  have frame := stays ⟨false, fun _ => 0⟩ _ [0, 9, 0, 0, 0] [0xff, 0xff, 0xff, 0xff] [.string] fit
    (by decide) (by decide)
  exact frame.2.1

end Certi.MessageBuffer
