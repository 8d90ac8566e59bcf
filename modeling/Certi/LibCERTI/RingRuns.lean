import Certi.LibCERTI.RingBuffer

/-!
# Bytes in order through a ring buffer

An index of the ring counts bytes but is an address in words, so that the bytes
of two calls do not lie one behind the other. Each direction is a queue of
bytes, and no access leaves the segment, as long as every `Send` stays inside
the segment where the address of its index is, and every `Receive` takes bytes
of one `Send`, from its beginning.
-/
namespace Certi

open Bytes Runs

/-! ## The statement -/

section Calls

variable (side : Side)

/-- The bytes accepted from one side. -/
def sentBytes (past : List (RingCall × RingAnswer)) : List Byte :=
  past.flatMap fun entry => match entry with
    | (.send d buffer, .sent) => if d = side then buffer else []
    | _ => []

/-- The bytes given to the other side. -/
def receivedBytes (past : List (RingCall × RingAnswer)) : List Byte :=
  past.flatMap fun entry => match entry with
    | (.receive d _, .received bytes) => if d.other = side then bytes else []
    | _ => []

/-- The bytes of one side that are still to be received. -/
def unreadBytes (past : List (RingCall × RingAnswer)) : List Byte :=
  (sentBytes side past).drop (receivedBytes side past).length

end Calls

/-- A direction is a queue: what was received is the beginning of what was sent, the free bytes
and the unread ones make up the capacity. -/
structure RingBuffer.Fifo (s : RingBuffer) (side : Side) (past : List (RingCall × RingAnswer)) :
    Prop where
  inOrder : receivedBytes side past <+: sentBytes side past
  counted : (s.ring side).count + (unreadBytes side past).length = (s.ring side).size

/-- What a call does: nothing is accessed outside the blocks, and a `Send` is refused exactly
where there is not enough room. -/
structure RingBuffer.Answers (s : RingBuffer) (past : List (RingCall × RingAnswer))
    (call : RingCall) : Prop where
  inside : (ringBuffer s call).2 ≠ .faulted
  refused : ∀ side buffer, call = .send side buffer →
    ((∃ e, (ringBuffer s call).2 = .threw e) ↔
      (s.ring side).size < (unreadBytes side past).length + buffer.length)

/-- The sends of one direction that have not been received to the end, and whether the first of
them has been received in part. -/
structure Backlog where
  messages : List (List Byte)
  begun : Bool
  deriving DecidableEq, Repr

namespace Backlog

def push (b : Backlog) (message : List Byte) : Backlog :=
  if message = [] then b else { b with messages := b.messages ++ [message] }

/-- `n` bytes are received; `begun` is about what comes before the first message. -/
def pull (begun : Bool) : Nat → List (List Byte) → Backlog
  | _, [] => ⟨[], begun⟩
  | n, message :: rest =>
    if n = 0 then ⟨message :: rest, begun⟩
    else if n < message.length then ⟨message.drop n :: rest, true⟩
    else pull false (n - message.length) rest

/-- The backlog of a side after a call. -/
def after (side : Side) (b : Backlog) : RingCall × RingAnswer → Backlog
  | (.send d buffer, .sent) => if d = side then b.push buffer else b
  | (.receive d _, .received bytes) =>
    if d.other = side then pull b.begun bytes.length b.messages else b
  | _ => b

/-- The backlog of a side after some calls. -/
def of (side : Side) (past : List (RingCall × RingAnswer)) : Backlog :=
  past.foldl (after side) ⟨[], false⟩

def unread (b : Backlog) : List Byte := b.messages.flatten

end Backlog

/-- The condition on a call: a `Send` that is not refused has a capacity to divide by and stays
inside the segment, a `Receive` that is not refused takes bytes of the next send, and from its
beginning. -/
def RingBuffer.Aligned (run : List (RingCall × RingAnswer) × RingBuffer) : RingCall → Prop
  | .send side buffer =>
    let ring := run.2.ring side
    buffer.length ≤ ring.size → (buffer.length : Int) ≤ ring.count →
      ring.size ≠ 0 ∧ (buffer ≠ [] → sizeofPointer * ring.write + buffer.length ≤ ring.size)
  | .receive side buffer =>
    let ring := run.2.ring side.other
    let backlog := Backlog.of side.other run.1
    buffer.length ≤ ring.size → ring.count ≠ ring.size → buffer ≠ [] →
      backlog.begun = false ∧ ∀ message ∈ backlog.messages.head?, buffer.length ≤ message.length

/-! ## Numbers and blocks -/

theorem toInt_small {x : Int} (low : -2 ^ 31 ≤ x) (high : x < 2 ^ 31) : toInt x = x :=
  Int.bmod_eq_of_le (by simpa using low) (by simpa using high)

theorem toSize_small {x : Int} (low : 0 ≤ x) (high : x < 2 ^ 64) : (toSize x : Int) = x := by
  unfold toSize
  rw [Int.emod_eq_of_lt low high]
  exact Int.toNat_of_nonneg low

theorem toSize_nat {n : Nat} (high : n < 2 ^ 64) : toSize n = n := by
  have same := toSize_small (x := (n : Int)) (by omega) (by omega)
  omega

theorem memcpy_nothing (source : List Byte) (off : Nat) (target : List Byte) (off' : Nat) :
    memcpy source off 0 target off' = some target := if_pos rfl


/-! ## One ring -/

namespace Ring

variable {ring ring' : Ring} {b : Backlog} {buffer : List Byte}

/-- Every message lies where the address of its index is. -/
def Placed (shm : List Byte) : Nat → List (List Byte) → Prop
  | _, [] => True
  | p, message :: rest =>
    load shm (sizeofPointer * p) message.length = some message ∧
      Placed shm (p + message.length) rest

/-- The index of the next byte to read; a read index at the end has not been wrapped yet. -/
def start (ring : Ring) : Nat := (ring.read % ring.size).toNat

/-- The ring and the sends that are still to be received from it. -/
structure Holds (ring : Ring) (b : Backlog) : Prop where
  small : ring.size < 2 ^ 31
  shm : ring.shm.length = ring.size
  filled : ∀ message ∈ b.messages, message ≠ []
  count : ring.count + b.unread.length = ring.size
  room : b.unread.length ≤ ring.size
  write : 0 ≤ ring.write ∧ (ring.write < ring.size ∨ ring.write = 0)
  read : 0 ≤ ring.read ∧ ring.read ≤ ring.size
  placed : b.begun = false → Placed ring.shm ring.start b.messages ∧
    ring.start + b.unread.length ≤ ring.size ∧
    ring.write = ↑((ring.start + b.unread.length) % ring.size)

/-- Messages that lie at their addresses leave the indices far behind. -/
theorem Placed.fits {shm : List Byte} {messages : List (List Byte)} {p : Nat}
    (placed : Placed shm p messages) (some : messages ≠ []) :
    sizeofPointer * p + messages.flatten.length ≤ shm.length := by
  induction messages generalizing p with
  | nil => exact absurd rfl some
  | cons message rest ih =>
    obtain ⟨here, later⟩ := placed
    have inside : sizeofPointer * p + message.length ≤ shm.length := by
      unfold load at here
      split at here
      · assumption
      · cases here
    cases rest with
    | nil => simpa using inside
    | cons next rest =>
      have behind := ih later (List.cons_ne_nil next rest)
      unfold sizeofPointer at *
      simp only [List.flatten_cons, List.length_append] at behind ⊢
      omega

/-- A store behind the messages keeps them. -/
theorem Placed.keep {shm shm' cells : List Byte} {messages : List (List Byte)} {p off : Nat}
    (placed : Placed shm p messages) (stored : store shm off cells = some shm')
    (behind : sizeofPointer * (p + messages.flatten.length) ≤ off) : Placed shm' p messages := by
  induction messages generalizing p with
  | nil => trivial
  | cons message rest ih =>
    obtain ⟨here, later⟩ := placed
    simp only [List.flatten_cons, List.length_append] at behind
    have before : sizeofPointer * p + message.length ≤ off := by
      unfold sizeofPointer at *
      omega
    refine ⟨?_, ih later (by rw [Nat.add_assoc]; exact behind)⟩
    rw [load_store_before stored before]
    exact here

theorem Placed.append {shm message : List Byte} {messages : List (List Byte)} {p : Nat}
    (placed : Placed shm p messages)
    (here : load shm (sizeofPointer * (p + messages.flatten.length)) message.length =
      some message) : Placed shm p (messages ++ [message]) := by
  induction messages generalizing p with
  | nil => exact ⟨by simpa using here, trivial⟩
  | cons first rest ih =>
    refine ⟨placed.1, ih placed.2 ?_⟩
    simpa [Nat.add_assoc] using here

/-! ### Send -/

/-- A send is refused where there is not enough room, and else goes to the address of the index,
where it stays inside the segment. -/
theorem send_eq (holds : ring.Holds b)
    (aligned : buffer.length ≤ ring.size → (buffer.length : Int) ≤ ring.count →
      ring.size ≠ 0 ∧ (buffer ≠ [] → sizeofPointer * ring.write + buffer.length ≤ ring.size)) :
    (ring.size < b.unread.length + buffer.length ∧ ∃ e, ring.send buffer = .throws e) ∨
      (b.unread.length + buffer.length ≤ ring.size ∧
        ∃ shm, ring.send buffer = .done { ring with
            count := ring.count - buffer.length
            write := ↑((ring.write.toNat + buffer.length) % ring.size)
            shm := shm } ∧
          (if buffer = [] then shm = ring.shm
          else store ring.shm (sizeofPointer * ring.write.toNat) buffer = some shm)) := by
  obtain ⟨low, high⟩ := holds.write
  obtain ⟨w, writeIs⟩ := Int.eq_ofNat_of_zero_le low
  have small := holds.small
  have counted := holds.count
  have room := holds.room
  have first : ring.write.toNat = w := by omega
  unfold send
  by_cases long : buffer.length > ring.size
  · rw [if_pos long]
    exact .inl ⟨by omega, _, rfl⟩
  have narrowed : toInt buffer.length = buffer.length := toInt_small (by omega) (by omega)
  rw [if_neg long, narrowed]
  by_cases full : (buffer.length : Int) > ring.count
  · rw [if_pos full]
    exact .inl ⟨by omega, _, rfl⟩
  obtain ⟨positive, inside⟩ := aligned (by omega) (by omega)
  -- what is in range of the address is in range of the index, so that one copy is enough
  have near : w + buffer.length ≤ ring.size := by
    by_cases nothing : buffer = []
    · simp only [nothing, List.length_nil]
      omega
    · have there := inside nothing
      unfold sizeofPointer at there
      omega
  have simple : ring.read > ring.write ∨
      ring.write ≥ ring.read ∧ toSize (buffer.length + ring.write) ≤ ring.size := by
    have sum : toSize (buffer.length + ring.write) = buffer.length + w := by
      rw [writeIs, ← Nat.cast_add, toSize_nat (by omega)]
    rw [sum]
    omega
  have index : ring.wrapped (ring.write + buffer.length) =
      some ↑((w + buffer.length) % ring.size) := by
    have below := Nat.mod_lt (w + buffer.length) (Nat.pos_of_ne_zero positive)
    unfold wrapped
    rw [if_neg positive, writeIs, ← Nat.cast_add, toSize_nat (by omega),
      toInt_small (by omega) (by omega)]
  have rest : toInt (ring.count - buffer.length) = ring.count - buffer.length :=
    toInt_small (by omega) (by omega)
  have address : toSize (sizeofPointer * ring.write) = sizeofPointer * w := by
    unfold sizeofPointer
    have product : ((8 : Nat) : Int) * ring.write = ↑(8 * w) := by omega
    rw [product, toSize_nat (by omega)]
  rw [if_neg full, if_pos simple, first]
  refine .inr ⟨by omega, ?_⟩
  by_cases nothing : buffer = []
  · refine ⟨ring.shm, ?_, by rw [if_pos nothing]⟩
    have copied : memcpy buffer 0 buffer.length ring.shm (toSize (sizeofPointer * ring.write)) =
        some ring.shm := by
      rw [nothing]
      exact memcpy_nothing _ _ _ _
    simp only [sendSimple, copied, index, rest, Option.bind_eq_bind, Option.bind_some,
      Option.pure_def, Attempt.of]
  · have there := inside nothing
    unfold sizeofPointer at there
    have stored : ∃ shm, store ring.shm (sizeofPointer * w) buffer = some shm := by
      unfold store sizeofPointer
      rw [if_pos (by rw [holds.shm]; omega)]
      exact ⟨_, rfl⟩
    obtain ⟨shm, stored⟩ := stored
    refine ⟨shm, ?_, by rw [if_neg nothing]; exact stored⟩
    have some' : buffer.length ≠ 0 := fun empty => nothing (List.length_eq_zero_iff.mp empty)
    have copied : memcpy buffer 0 buffer.length ring.shm (toSize (sizeofPointer * ring.write)) =
        some shm := by
      unfold memcpy load
      rw [if_neg some', if_pos (by omega), address]
      simpa using stored
    simp only [sendSimple, copied, index, rest, Option.bind_eq_bind, Option.bind_some,
      Option.pure_def, Attempt.of]

/-- A send that is accepted is the last of the backlog. -/
theorem send_holds (holds : ring.Holds b) {shm : List Byte}
    (room : b.unread.length + buffer.length ≤ ring.size) (positive : ring.size ≠ 0)
    (inside : buffer ≠ [] → sizeofPointer * ring.write + buffer.length ≤ ring.size)
    (stored : if buffer = [] then shm = ring.shm
      else store ring.shm (sizeofPointer * ring.write.toNat) buffer = some shm) :
    Holds { ring with
      count := ring.count - buffer.length
      write := ↑((ring.write.toNat + buffer.length) % ring.size)
      shm := shm } (b.push buffer) := by
  have below := Nat.mod_lt (ring.write.toNat + buffer.length) (Nat.pos_of_ne_zero positive)
  obtain ⟨low, high⟩ := holds.write
  have counted := holds.count
  by_cases nothing : buffer = []
  · rw [if_pos nothing] at stored
    have same : (ring.write.toNat + buffer.length) % ring.size = ring.write.toNat := by
      rw [nothing, List.length_nil, Nat.add_zero]
      exact Nat.mod_eq_of_lt (by omega)
    rw [same, Int.toNat_of_nonneg low, stored, Backlog.push, if_pos nothing, nothing,
      List.length_nil, Nat.cast_zero, sub_zero]
    exact holds
  rw [if_neg nothing] at stored
  have there := inside nothing
  have unread : (b.push buffer).unread = b.unread ++ buffer := by
    simp [Backlog.push, Backlog.unread, nothing]
  have length : (b.push buffer).unread.length = b.unread.length + buffer.length := by
    rw [unread, List.length_append]
  have pushed : b.push buffer = { b with messages := b.messages ++ [buffer] } := if_neg nothing
  refine
    { small := holds.small
      shm := (store_length stored).trans holds.shm
      filled := ?_
      count := by rw [length]; dsimp only; push_cast; omega
      room := by rw [length]; exact room
      write := ⟨Int.natCast_nonneg _, .inl (by dsimp only; omega)⟩
      read := holds.read
      placed := fun fresh => ?_ }
  · rw [pushed]
    intro message member
    rcases List.mem_append.mp member with old | new
    · exact holds.filled message old
    · rw [List.mem_singleton.mp new]
      exact nothing
  · obtain ⟨placed, near, writeIs⟩ := holds.placed (by rw [pushed] at fresh; exact fresh)
    -- the write index has not come round: a message that ends at the end begins at the beginning
    have short : ring.start + b.unread.length < ring.size := by
      by_contra far
      have end' : ring.start + b.unread.length = ring.size := by omega
      cases messages : b.messages with
      | nil =>
        have empty : b.unread = [] := by simp [Backlog.unread, messages]
        have early : ring.start < ring.size := by
          unfold start
          have inRange := Int.emod_lt_of_pos ring.read
            (by omega : (0 : Int) < ring.size)
          omega
        rw [empty, List.length_nil] at end'
        omega
      | cons message rest =>
        have fits := placed.fits (by rw [messages]; exact List.cons_ne_nil _ _)
        rw [holds.shm] at fits
        change sizeofPointer * ring.start + b.unread.length ≤ ring.size at fits
        have some' : buffer.length ≠ 0 := fun empty => nothing (List.length_eq_zero_iff.mp empty)
        unfold sizeofPointer at fits
        omega
    have index : ring.write.toNat = ring.start + b.unread.length := by
      rw [Nat.mod_eq_of_lt short] at writeIs
      omega
    have here : Ring.start { ring with
        count := ring.count - buffer.length
        write := ↑((ring.write.toNat + buffer.length) % ring.size)
        shm := shm } = ring.start := rfl
    rw [here, length, index]
    unfold sizeofPointer at there
    refine ⟨?_, by dsimp only; omega, by rw [Nat.add_assoc]⟩
    rw [pushed]
    refine (placed.keep stored ?_).append ?_
    · rw [index]
      exact Nat.le_refl _
    · rw [index] at stored
      exact load_store_same stored

/-! ### Receive -/

/-- The beginning of a message is copied over the whole of the buffer. -/
theorem memcpy_message {shm message buffer : List Byte} {off : Nat}
    (here : load shm off message.length = some message) (short : buffer.length ≤ message.length) :
    memcpy shm off buffer.length buffer 0 = some (message.take buffer.length) := by
  unfold memcpy
  by_cases nothing : buffer.length = 0
  · have empty : buffer = [] := List.length_eq_zero_iff.mp nothing
    rw [if_pos nothing, empty]
    simp
  · have loaded : load shm off buffer.length = some (message.take buffer.length) := by
      unfold load at here ⊢
      split at here
      · rw [if_pos (by omega)]
        rw [← Option.some.inj here, List.take_take, Nat.min_eq_left (by simpa using short)]
      · cases here
    have size : (message.take buffer.length).length = buffer.length := by
      rw [List.length_take]
      omega
    rw [if_neg nothing, loaded, Option.bind_some]
    unfold store
    rw [size, if_pos (by omega)]
    simp

/-- A receive is refused, or takes bytes from the address of the read index, where the next
message begins. -/
theorem receive_eq (holds : ring.Holds b)
    (aligned : buffer.length ≤ ring.size → ring.count ≠ ring.size → buffer ≠ [] →
      b.begun = false ∧ ∀ message ∈ b.messages.head?, buffer.length ≤ message.length) :
    (∃ e, ring.receive buffer = .throws e) ∨
      ring.size ≠ 0 ∧ ∃ (read : Nat) (bytes : List Byte),
        ring.receive buffer = .done ({ ring with
          count := ring.count + buffer.length
          read := read }, bytes) ∧
        (if buffer = [] then bytes = [] ∧ (read : Int) = ring.read
        else read ≤ ring.size ∧ read % ring.size = (ring.start + buffer.length) % ring.size ∧
          b.begun = false ∧ ∃ message rest, b.messages = message :: rest ∧
            buffer.length ≤ message.length ∧ bytes = message.take buffer.length) := by
  obtain ⟨low, high⟩ := holds.read
  obtain ⟨r, readIs⟩ := Int.eq_ofNat_of_zero_le low
  obtain ⟨wlow, whigh⟩ := holds.write
  have small := holds.small
  have counted := holds.count
  have room := holds.room
  unfold receive
  by_cases long : buffer.length > ring.size
  · rw [if_pos long]
    exact .inl ⟨_, rfl⟩
  rw [if_neg long, toInt_small (by omega) (by omega)]
  by_cases empty : ring.count = ring.size
  · rw [if_pos empty]
    exact .inl ⟨_, rfl⟩
  have positive : ring.size ≠ 0 := by omega
  rw [if_neg empty]
  refine .inr ⟨positive, ?_⟩
  by_cases nothing : buffer = []
  · have simple : ring.write > ring.read ∨
        ring.read ≥ ring.write ∧ toSize (buffer.length + ring.read) ≤ ring.size := by
      have sum : toSize (buffer.length + ring.read) = r := by
        rw [nothing, readIs, List.length_nil, Nat.cast_zero, zero_add, toSize_nat (by omega)]
      rw [sum]
      omega
    refine ⟨r, [], ?_, by rw [if_pos nothing]; exact ⟨rfl, readIs.symm⟩⟩
    rw [if_pos simple]
    have zero : (buffer.length : Int) = 0 := by rw [nothing]; rfl
    have copied : memcpy ring.shm (toSize (sizeofPointer * ring.read)) buffer.length buffer 0 =
        some [] := by
      rw [nothing]
      exact memcpy_nothing _ _ _ _
    simp only [receiveSimple, copied, zero, add_zero, toInt_small (x := ring.count) (by omega)
      (by omega), toInt_small (x := ring.read) (by omega) (by omega), Option.bind_eq_bind,
      Option.bind_some, Option.pure_def, Attempt.of, ← readIs]
  obtain ⟨fresh, short⟩ := aligned (by omega) empty nothing
  obtain ⟨placed, near, _⟩ := holds.placed fresh
  cases messages : b.messages with
  | nil =>
    have none' : b.unread.length = 0 := by simp [Backlog.unread, messages]
    omega
  | cons message rest =>
    rw [messages] at placed short
    have fits : buffer.length ≤ message.length := short message rfl
    have total : b.unread.length = message.length + rest.flatten.length := by
      simp [Backlog.unread, messages]
    have copied := memcpy_message placed.1 fits
    by_cases last : r = ring.size
    · -- the index has reached the end without being wrapped: the first of two copies is empty
      have start : ring.start = 0 := by
        unfold Ring.start
        rw [readIs, last, Int.emod_self]
        rfl
      have sum : toSize (buffer.length + ring.read) = buffer.length + r := by
        rw [readIs, ← Nat.cast_add, toSize_nat (by omega)]
      have some' : buffer.length ≠ 0 := fun none' => nothing (List.length_eq_zero_iff.mp none')
      have double : ¬(ring.write > ring.read ∨
          ring.read ≥ ring.write ∧ toSize (buffer.length + ring.read) ≤ ring.size) := by
        rw [sum]
        omega
      have behind : toInt (ring.size - ring.read) = 0 := by
        rw [readIs, last, sub_self]
        rfl
      have index : ring.wrapped (ring.read + buffer.length) =
          some ↑((r + buffer.length) % ring.size) := by
        have below := Nat.mod_lt (r + buffer.length) (Nat.pos_of_ne_zero positive)
        unfold wrapped
        rw [if_neg positive, readIs, ← Nat.cast_add, toSize_nat (by omega),
          toInt_small (by omega) (by omega)]
      rw [start] at copied
      have whole : toSize ((buffer.length : Int) - 0) = buffer.length := by
        rw [sub_zero, toSize_nat (by omega)]
      refine ⟨(r + buffer.length) % ring.size, message.take buffer.length, ?_, ?_⟩
      · have nowhere : toSize ((sizeofPointer : Int) * 0) = 0 := rfl
        have zero : toSize 0 = 0 := rfl
        rw [if_neg double]
        simp only [receiveDouble, behind, zero, memcpy_nothing, whole, nowhere, copied, index,
          toInt_small (x := ring.count + buffer.length) (by omega) (by omega),
          Option.bind_eq_bind, Option.bind_some, Option.pure_def, Attempt.of,
          Nat.mul_zero] at copied ⊢
      · rw [if_neg nothing]
        have below := Nat.mod_lt (r + buffer.length) (Nat.pos_of_ne_zero positive)
        refine ⟨by omega, ?_, fresh, message, rest, rfl, fits, rfl⟩
        rw [start, last, Nat.mod_mod, Nat.add_mod_left, Nat.zero_add]
    · have start : ring.start = r := by
        unfold Ring.start
        rw [readIs, ← Int.natCast_emod, Int.toNat_natCast]
        exact Nat.mod_eq_of_lt (by omega)
      have sum : toSize (buffer.length + ring.read) = buffer.length + r := by
        rw [readIs, ← Nat.cast_add, toSize_nat (by omega)]
      have simple : ring.write > ring.read ∨
          ring.read ≥ ring.write ∧ toSize (buffer.length + ring.read) ≤ ring.size := by
        rw [sum]
        omega
      have address : toSize (sizeofPointer * ring.read) = sizeofPointer * r := by
        unfold sizeofPointer
        have product : ((8 : Nat) : Int) * ring.read = ↑(8 * r) := by omega
        rw [product, toSize_nat (by omega)]
      rw [start] at copied near
      refine ⟨r + buffer.length, message.take buffer.length, ?_, ?_⟩
      · rw [if_pos simple]
        simp only [receiveSimple, address, copied,
          toInt_small (x := ring.count + buffer.length) (by omega) (by omega),
          toInt_small (x := ring.read + buffer.length) (by omega) (by omega),
          Option.bind_eq_bind, Option.bind_some, Option.pure_def, Attempt.of]
        rw [readIs, Nat.cast_add]
      · rw [if_neg nothing]
        exact ⟨by omega, by rw [start], fresh, message, rest, rfl, fits, rfl⟩

/-- What was received is taken from the backlog. -/
theorem receive_holds (holds : ring.Holds b) {read : Nat} {bytes : List Byte}
    (positive : ring.size ≠ 0)
    (taken : if buffer = [] then bytes = [] ∧ (read : Int) = ring.read
      else read ≤ ring.size ∧ read % ring.size = (ring.start + buffer.length) % ring.size ∧
        b.begun = false ∧ ∃ message rest, b.messages = message :: rest ∧
          buffer.length ≤ message.length ∧ bytes = message.take buffer.length) :
    Holds { ring with
      count := ring.count + buffer.length
      read := read } (Backlog.pull b.begun bytes.length b.messages) ∧
    b.unread = bytes ++ (Backlog.pull b.begun bytes.length b.messages).unread := by
  by_cases nothing : buffer = []
  · rw [if_pos nothing] at taken
    have same : Backlog.pull b.begun 0 b.messages = b := by
      unfold Backlog.pull
      split
      · rename_i empty
        rw [← empty]
      · rename_i all
        rw [if_pos rfl, ← all]
    rw [taken.1, taken.2, List.length_nil, same, nothing, List.length_nil, Nat.cast_zero,
      add_zero]
    exact ⟨holds, rfl⟩
  rw [if_neg nothing] at taken
  obtain ⟨inside, index, fresh, message, rest, messages, fits, got⟩ := taken
  have counted := holds.count
  have room := holds.room
  obtain ⟨placed, near, writeIs⟩ := holds.placed fresh
  have total : b.unread.length = message.length + rest.flatten.length := by
    simp [Backlog.unread, messages]
  have some' : buffer.length ≠ 0 := fun empty => nothing (List.length_eq_zero_iff.mp empty)
  have length : bytes.length = buffer.length := by
    rw [got, List.length_take]
    omega
  have start' : Ring.start { ring with
      count := ring.count + buffer.length
      read := read } = (ring.start + buffer.length) % ring.size := by
    unfold Ring.start
    dsimp only
    rw [← Int.natCast_emod, Int.toNat_natCast, index]
    rfl
  rw [messages] at placed
  by_cases part : buffer.length < message.length
  · have pulled : Backlog.pull b.begun bytes.length b.messages =
        ⟨message.drop buffer.length :: rest, true⟩ := by
      rw [length, messages, Backlog.pull, if_neg some', if_pos part]
    have left : (Backlog.pull b.begun bytes.length b.messages).unread.length + buffer.length =
        b.unread.length := by
      rw [pulled, total]
      simp only [Backlog.unread, List.flatten_cons, List.length_append, List.length_drop]
      omega
    refine ⟨?_, ?_⟩
    · refine
        { small := holds.small
          shm := holds.shm
          filled := ?_
          count := by dsimp only; omega
          room := by dsimp only; omega
          write := holds.write
          read := ⟨Int.natCast_nonneg _, by dsimp only; omega⟩
          placed := fun impossible => ?_ }
      · rw [pulled]
        intro m member
        rcases List.mem_cons.mp member with rfl | later
        · rw [ne_eq, List.drop_eq_nil_iff]
          omega
        · exact holds.filled m (by rw [messages]; exact List.mem_cons_of_mem _ later)
      · rw [pulled] at impossible
        cases impossible
    · rw [pulled, got, Backlog.unread, messages]
      simp [Backlog.unread, ← List.append_assoc]
  · have whole : buffer.length = message.length := by omega
    have pulled : Backlog.pull b.begun bytes.length b.messages = ⟨rest, false⟩ := by
      rw [length, messages, Backlog.pull, if_neg some', if_neg part, whole, Nat.sub_self]
      cases rest with
      | nil => rfl
      | cons next rest => rw [Backlog.pull, if_pos rfl]
    have left : (Backlog.pull b.begun bytes.length b.messages).unread.length + buffer.length =
        b.unread.length := by
      rw [pulled, total]
      simp only [Backlog.unread]
      omega
    refine ⟨?_, ?_⟩
    · refine
        { small := holds.small
          shm := holds.shm
          filled := ?_
          count := by dsimp only; omega
          room := by dsimp only; omega
          write := holds.write
          read := ⟨Int.natCast_nonneg _, by dsimp only; omega⟩
          placed := fun _ => ?_ }
      · rw [pulled]
        intro m member
        exact holds.filled m (by rw [messages]; exact List.mem_cons_of_mem _ member)
      · rw [pulled, start']
        dsimp only
        have behind : rest.flatten.length = (Backlog.unread ⟨rest, false⟩).length := rfl
        cases later : rest with
        | nil =>
          rw [later] at total
          have below := Nat.mod_lt (ring.start + buffer.length) (Nat.pos_of_ne_zero positive)
          simp only [List.flatten_nil, List.length_nil] at total
          refine ⟨trivial, by simp [Backlog.unread]; omega, ?_⟩
          rw [writeIs, total, ← whole]
          simp [Backlog.unread]
        | cons next others =>
          -- a message that is followed by another one does not end at the end
          have fits' := placed.2.fits (by rw [later]; exact List.cons_ne_nil _ _)
          have some'' : next.length ≠ 0 := fun empty =>
            holds.filled next (by rw [messages, later]; simp) (List.length_eq_zero_iff.mp empty)
          rw [holds.shm, later] at fits'
          unfold sizeofPointer at fits'
          simp only [List.flatten_cons, List.length_append] at fits'
          have same : (ring.start + buffer.length) % ring.size = ring.start + message.length := by
            rw [whole]
            exact Nat.mod_eq_of_lt (by omega)
          rw [same, ← later]
          refine ⟨placed.2, by omega, ?_⟩
          rw [writeIs, total, behind, Nat.add_assoc]
    · rw [pulled, got, Backlog.unread, messages, whole, List.take_length]
      rfl

end Ring

/-! ## Runs -/

namespace RingBuffer

variable {s : RingBuffer} {past : List (RingCall × RingAnswer)} {side : Side}

/-- One direction after some calls. -/
structure Flows (s : RingBuffer) (past : List (RingCall × RingAnswer)) (side : Side) : Prop where
  holds : (s.ring side).Holds (Backlog.of side past)
  split : sentBytes side past = receivedBytes side past ++ (Backlog.of side past).unread

structure Sound (past : List (RingCall × RingAnswer)) (s : RingBuffer) : Prop where
  alive : s.ended = false
  flows : ∀ side, s.Flows past side

theorem Flows.unread (flows : s.Flows past side) :
    unreadBytes side past = (Backlog.of side past).unread := by
  rw [unreadBytes, flows.split, List.drop_left]

theorem Flows.fifo (flows : s.Flows past side) : s.Fifo side past := by
  refine ⟨⟨_, flows.split.symm⟩, ?_⟩
  rw [flows.unread]
  exact flows.holds.count

theorem sentBytes_snoc (entry : RingCall × RingAnswer) :
    sentBytes side (past ++ [entry]) = sentBytes side past ++ sentBytes side [entry] :=
  List.flatMap_append

theorem receivedBytes_snoc (entry : RingCall × RingAnswer) :
    receivedBytes side (past ++ [entry]) =
      receivedBytes side past ++ receivedBytes side [entry] :=
  List.flatMap_append

theorem backlog_snoc (entry : RingCall × RingAnswer) :
    Backlog.of side (past ++ [entry]) = (Backlog.of side past).after side entry := by
  rw [Backlog.of, List.foldl_append]
  rfl

/-- A call that says nothing about a direction. -/
theorem Flows.other (flows : s.Flows past side) {s' : RingBuffer}
    {entry : RingCall × RingAnswer} (ring : s'.ring side = s.ring side)
    (sent : sentBytes side [entry] = []) (received : receivedBytes side [entry] = [])
    (backlog : (Backlog.of side past).after side entry = Backlog.of side past) :
    s'.Flows (past ++ [entry]) side := by
  refine ⟨?_, ?_⟩
  · rw [ring, backlog_snoc, backlog]
    exact flows.holds
  · rw [sentBytes_snoc, receivedBytes_snoc, backlog_snoc, backlog, sent, received,
      List.append_nil, List.append_nil]
    exact flows.split

/-- A call that is refused changes nothing. -/
theorem Sound.refused (sound : Sound past s) (call : RingCall) (e : RingException) :
    Sound (past ++ [(call, .threw e)]) s := by
  refine ⟨sound.alive, fun d => (sound.flows d).other rfl ?_ ?_ ?_⟩ <;> cases call <;> rfl

@[simp] theorem setRing_same (ring : Ring) : (s.setRing side ring).ring side = ring := if_pos rfl

theorem setRing_other {d : Side} (other : d ≠ side) (ring : Ring) :
    (s.setRing side ring).ring d = s.ring d := if_neg other

theorem Send_step (sound : Sound past s) {buffer : List Byte}
    (aligned : Aligned (past, s) (.send side buffer)) :
    Sound (past ++ [(.send side buffer, (ringBuffer s (.send side buffer)).2)])
        (ringBuffer s (.send side buffer)).1 ∧ s.Answers past (.send side buffer) := by
  have flows := sound.flows side
  have step : ringBuffer s (.send side buffer) = s.Send side buffer := by
    simp [ringBuffer, sound.alive]
  rcases Ring.send_eq flows.holds aligned with ⟨full, e, refused⟩ | ⟨room, shm, sent, stored⟩
  · have result : ringBuffer s (.send side buffer) = (s, .threw e) := by
      rw [step, Send, refused]
    rw [result]
    refine ⟨sound.refused _ e, ?_, ?_⟩
    · rw [result]
      exact RingAnswer.noConfusion
    · rintro d bytes same
      cases same
      rw [result, flows.unread]
      exact ⟨fun _ => full, fun _ => ⟨e, rfl⟩⟩
  · have result : ringBuffer s (.send side buffer) = (s.setRing side { s.ring side with
        count := (s.ring side).count - buffer.length
        write := ↑(((s.ring side).write.toNat + buffer.length) % (s.ring side).size)
        shm := shm }, .sent) := by
      rw [step, Send, sent]
    have counted := flows.holds.count
    obtain ⟨positive, inside⟩ := aligned
      (show buffer.length ≤ (s.ring side).size by omega)
      (show (buffer.length : Int) ≤ (s.ring side).count by omega)
    rw [result]
    refine ⟨⟨sound.alive, fun d => ?_⟩, ?_, ?_⟩
    · by_cases own : d = side
      · subst own
        have pushed : (Backlog.of d past).after d (.send d buffer, .sent) =
            (Backlog.of d past).push buffer := if_pos rfl
        have unread : ((Backlog.of d past).push buffer).unread =
            (Backlog.of d past).unread ++ buffer := by
          unfold Backlog.push Backlog.unread
          split
          · rename_i nothing
            simp [nothing]
          · simp
        refine ⟨?_, ?_⟩
        · rw [backlog_snoc, pushed, setRing_same]
          exact Ring.send_holds flows.holds room positive inside stored
        · rw [sentBytes_snoc, receivedBytes_snoc, backlog_snoc, pushed, unread, flows.split]
          simp [sentBytes, receivedBytes]
      · exact (sound.flows d).other (setRing_other own _)
          (by simp [sentBytes, Ne.symm own]) rfl (if_neg (Ne.symm own))
    · rw [result]
      exact RingAnswer.noConfusion
    · rintro d bytes same
      cases same
      rw [result, flows.unread]
      constructor
      · rintro ⟨e, impossible⟩
        cases impossible
      · exact fun full => absurd full (by omega)

theorem Receive_step (sound : Sound past s) {buffer : List Byte}
    (aligned : Aligned (past, s) (.receive side buffer)) :
    Sound (past ++ [(.receive side buffer, (ringBuffer s (.receive side buffer)).2)])
        (ringBuffer s (.receive side buffer)).1 ∧ s.Answers past (.receive side buffer) := by
  have flows := sound.flows side.other
  have step : ringBuffer s (.receive side buffer) = s.Receive side buffer := by
    simp [ringBuffer, sound.alive]
  rcases Ring.receive_eq flows.holds aligned with
    ⟨e, refused⟩ | ⟨positive, read, bytes, received, taken⟩
  · have result : ringBuffer s (.receive side buffer) = (s, .threw e) := by
      rw [step, Receive, refused]
    rw [result]
    refine ⟨sound.refused _ e, ?_, by simp⟩
    rw [result]
    exact RingAnswer.noConfusion
  · have result : ringBuffer s (.receive side buffer) = (s.setRing side.other
        { s.ring side.other with
          count := (s.ring side.other).count + buffer.length
          read := read }, .received bytes) := by
      rw [step, Receive, received]
    obtain ⟨holds, split⟩ := Ring.receive_holds flows.holds positive taken
    rw [result]
    refine ⟨⟨sound.alive, fun d => ?_⟩, ?_, by simp⟩
    · by_cases own : d = side.other
      · subst own
        have pulled : (Backlog.of side.other past).after side.other
            (.receive side buffer, .received bytes) =
            Backlog.pull (Backlog.of side.other past).begun bytes.length
              (Backlog.of side.other past).messages := if_pos rfl
        refine ⟨?_, ?_⟩
        · rw [backlog_snoc, pulled, setRing_same]
          exact holds
        · rw [sentBytes_snoc, receivedBytes_snoc, backlog_snoc, pulled, flows.split, split]
          simp [sentBytes, receivedBytes]
      · exact (sound.flows d).other (setRing_other own _) rfl
          (by simp [receivedBytes, Ne.symm own]) (if_neg (Ne.symm own))
    · rw [result]
      exact RingAnswer.noConfusion

/-! ### From the start -/

theorem create_holds (size : Nat) (small : size < 2 ^ 31) (memory : Nat → Byte) :
    (Ring.create size memory).Holds ⟨[], false⟩ where
  small := small
  shm := by simp [Ring.create]
  filled := by simp
  count := by
    have same : toInt size = size := toInt_small (by omega) (by omega)
    simp [Ring.create, Backlog.unread, same]
  room := Nat.zero_le _
  write := ⟨Int.le_refl _, .inr rfl⟩
  read := ⟨Int.le_refl _, Int.natCast_nonneg _⟩
  placed := fun _ => by simp [Ring.Placed, Ring.start, Ring.create, Backlog.unread]

theorem create_sound (size : Nat) (small : size < 2 ^ 31) (memory : Side → Nat → Byte) :
    Sound [] (create size memory) :=
  ⟨rfl, fun side => ⟨create_holds size small (memory side), rfl⟩⟩

theorem call_step (sound : Sound past s) {call : RingCall} (aligned : Aligned (past, s) call) :
    Sound (past ++ [(call, (ringBuffer s call).2)]) (ringBuffer s call).1 ∧
      s.Answers past call := by
  cases call with
  | send side buffer => exact Send_step sound aligned
  | receive side buffer => exact Receive_step sound aligned

end RingBuffer

/-- In every run of calls that meet the condition each direction is a queue of bytes, nothing is
accessed outside the segment and the buffers, and a send is refused exactly for want of room. -/
theorem bytes_in_order (size : Nat) (small : size < 2 ^ 31) (memory : Side → Nat → Byte)
    (calls : List RingCall)
    (ok : ringBuffer.recorded.Meets RingBuffer.Aligned ([], .create size memory) calls) :
    (∀ side, (ringBuffer.exec (.create size memory) calls).Fifo side
      (ringBuffer.trace (.create size memory) calls)) ∧
    ∀ before call after, calls = before ++ call :: after →
      (ringBuffer.exec (.create size memory) before).Answers
        (ringBuffer.trace (.create size memory) before) call := by
  have start := RingBuffer.create_sound size small memory
  constructor
  · have reached := Machine.exec_invariant ringBuffer.recorded
      (p := fun run => RingBuffer.Sound run.1 run.2)
      (fun _ _ sound aligned => (RingBuffer.call_step sound aligned).1) start ok
    rw [Machine.exec_recorded, List.nil_append] at reached
    exact fun side => (reached.flows side).fifo
  · rintro before call after rfl
    have reached := Machine.trace_steps ringBuffer.recorded
      (p := fun _ run => RingBuffer.Sound run.1 run.2)
      (q := fun _ run call => run.2.Answers run.1 call)
      (fun _ _ _ sound aligned => (RingBuffer.call_step sound aligned).1)
      (fun _ _ _ sound aligned => (RingBuffer.call_step sound aligned).2) start ok
    rw [Machine.exec_recorded, List.nil_append] at reached
    exact reached

instance decidableAligned (run : List (RingCall × RingAnswer) × RingBuffer) :
    ∀ call, Decidable (RingBuffer.Aligned run call)
  | .send .. => inferInstanceAs (Decidable (_ → _ → _ ∧ (_ → _)))
  | .receive .. => inferInstanceAs (Decidable (_ → _ → _ → _ ∧ ∀ message ∈ List.head? _, _))

/-- Two messages of the server one behind the other, and one of the customer that fills its
segment before a second one starts anew. -/
def exchange : List RingCall :=
  [.send .sc [1, 2], .send .cs (List.replicate 24 7), .send .sc [3], .send .cs [8],
    .receive .cs [0, 0], .receive .sc (List.replicate 24 0), .send .cs [9, 10],
    .receive .cs [0], .receive .sc [0, 0], .receive .sc [0]]

theorem bytes_in_order_exchange :
    ringBuffer.recorded.Meets RingBuffer.Aligned ([], .create 24 fun _ _ => 0) exchange ∧
      (ringBuffer.exec (.create 24 fun _ _ => 0) exchange).Fifo .sc
        (ringBuffer.trace (.create 24 fun _ _ => 0) exchange) := by
  have ok : ringBuffer.recorded.Meets RingBuffer.Aligned ([], .create 24 fun _ _ => 0)
      exchange := by decide +kernel
  exact ⟨ok, (bytes_in_order 24 (by decide) (fun _ _ => 0) exchange ok).1 .sc⟩

/-- Two bytes are sent at once and received one after the other: the second is read eight bytes
behind the first. -/
theorem second_byte_lost :
    ¬∀ (size : Nat) (memory : Side → Nat → Byte) (calls : List RingCall),
      (∀ side, (ringBuffer.exec (.create size memory) calls).Fifo side
        (ringBuffer.trace (.create size memory) calls)) ∧
      ∀ before call after, calls = before ++ call :: after →
        (ringBuffer.exec (.create size memory) before).Answers
          (ringBuffer.trace (.create size memory) before) call := by
  intro always
  have order := ((always 16 (fun _ _ => 0)
    [.send .sc [1, 2], .receive .cs [0], .receive .cs [0]]).1 .sc).inOrder
  exact absurd order (by decide +kernel)

end Certi
