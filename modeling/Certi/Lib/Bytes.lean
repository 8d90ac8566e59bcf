import Mathlib.Data.List.Basic
import Mathlib.Data.Nat.ModEq
import Mathlib.Tactic.Ring

/-!
# Words as bytes

A word of `w` bytes as the list of its bytes, in either byte order, and back;
and a block of memory as the list of its cells, where an access is defined only
inside the block.
-/
namespace Bytes

abbrev Byte := BitVec 8

inductive Order where
  | little | big
  deriving DecidableEq, Repr

def Order.flip : Order → Order
  | .little => .big
  | .big => .little

@[simp] theorem Order.flip_flip (o : Order) : o.flip.flip = o := by
  cases o <;> simp [flip]

/-- The `w` low bytes of `v`, the least significant first. -/
def digits : (w : Nat) → (v : Nat) → List Byte
  | 0, _ => []
  | w + 1, v => BitVec.ofNat 8 v :: digits w (v / 256)

def value : List Byte → Nat
  | [] => 0
  | b :: rest => b.toNat + 256 * value rest

@[simp] theorem length_digits (w v : Nat) : (digits w v).length = w := by
  induction w generalizing v with
  | zero => simp [digits]
  | succ w ih => simp [digits, ih]

theorem value_digits (w v : Nat) : value (digits w v) = v % 256 ^ w := by
  induction w generalizing v with
  | zero => simp [digits, value, Nat.mod_one]
  | succ w ih =>
    have split : v % 256 ^ (w + 1) = v % 256 + 256 * (v / 256 % 256 ^ w) := by
      rw [pow_succ, Nat.mul_comm, Nat.mod_mul]
    simp [digits, value, ih, split]

theorem digits_add (a b v : Nat) : digits (a + b) v = digits a v ++ digits b (v / 256 ^ a) := by
  induction a generalizing v with
  | zero => simp [digits]
  | succ a ih =>
    have assoc : a + 1 + b = a + b + 1 := by omega
    have power : v / 256 / 256 ^ a = v / 256 ^ (a + 1) := by
      rw [Nat.div_div_eq_div_mul, pow_succ, Nat.mul_comm]
    rw [assoc, digits, digits, ih, power, List.cons_append]

theorem digits_mod (w v : Nat) : digits w (v % 256 ^ w) = digits w v := by
  induction w generalizing v with
  | zero => simp [digits]
  | succ w ih =>
    have low : v % 256 ^ (w + 1) % 256 = v % 256 := by
      rw [pow_succ, Nat.mul_comm, Nat.mod_mul_right_mod]
    have high : v % 256 ^ (w + 1) / 256 = v / 256 % 256 ^ w := by
      rw [pow_succ, Nat.mul_comm, Nat.mod_mul_right_div_self]
    have first : BitVec.ofNat 8 (v % 256 ^ (w + 1)) = BitVec.ofNat 8 v := by
      apply BitVec.eq_of_toNat_eq
      simp [low]
    rw [digits, digits, first, high, ih]

/-- The bytes of a word, each shifted down. -/
theorem digits_toNat (w : Nat) {n : Nat} (x : BitVec n) :
    digits w x.toNat = (List.range w).map fun i => (x >>> (8 * i)).setWidth 8 := by
  induction w with
  | zero => simp [digits]
  | succ w ih =>
    have last : digits 1 (x.toNat / 256 ^ w) = [(x >>> (8 * w)).setWidth 8] := by
      have power : 256 ^ w = 2 ^ (8 * w) := by
        rw [pow_mul]
        norm_num
      rw [digits, digits, power, ← Nat.shiftRight_eq_div_pow, ← BitVec.toNat_ushiftRight,
        BitVec.ofNat_toNat]
    rw [digits_add, ih, last, List.range_succ, List.map_append, List.map_singleton]

theorem digits_halves (x : BitVec 64) : digits 8 x.toNat =
    digits 4 (x.extractLsb' 0 32).toNat ++ digits 4 (x.extractLsb' 32 32).toNat := by
  have low := digits_mod 4 x.toNat
  have high := digits_mod 4 (x.toNat / 256 ^ 4)
  have eight : (8 : Nat) = 4 + 4 := by omega
  rw [eight, digits_add, ← low, ← high]
  simp [BitVec.extractLsb'_toNat, Nat.shiftRight_eq_div_pow]

theorem append_halves (x : BitVec 64) : x.extractLsb' 32 32 ++ x.extractLsb' 0 32 = x := by
  ext i h
  simp only [BitVec.getElem_append, BitVec.getElem_extractLsb']
  grind

/-- The bytes of a word as memory holds them. -/
def layout (o : Order) (w : Nat) {n : Nat} (x : BitVec n) : List Byte :=
  match o with
  | .little => digits w x.toNat
  | .big => (digits w x.toNat).reverse

/-- The word of `n` bits that memory holds. -/
def word (o : Order) (n : Nat) (bytes : List Byte) : BitVec n :=
  match o with
  | .little => BitVec.ofNat n (value bytes)
  | .big => BitVec.ofNat n (value bytes.reverse)

@[simp] theorem length_layout (o : Order) (w : Nat) {n : Nat} (x : BitVec n) :
    (layout o w x).length = w := by
  cases o <;> simp [layout]

theorem word_layout (o : Order) {w n : Nat} (whole : n = 8 * w) (x : BitVec n) :
    word o n (layout o w x) = x := by
  have below : x.toNat < 256 ^ w := by
    have size : 2 ^ n = 256 ^ w := by
      rw [whole, pow_mul]
      norm_num
    have bound := x.isLt
    omega
  have back : BitVec.ofNat n (value (digits w x.toNat)) = x := by
    rw [value_digits, Nat.mod_eq_of_lt below, BitVec.ofNat_toNat, BitVec.setWidth_eq]
  cases o with
  | little => exact back
  | big => rwa [layout, word, List.reverse_reverse]

theorem digits_value (bytes : List Byte) : digits bytes.length (value bytes) = bytes := by
  induction bytes with
  | nil => simp [digits]
  | cons b rest ih =>
    have low : BitVec.ofNat 8 (b.toNat + 256 * value rest) = b := by
      apply BitVec.eq_of_toNat_eq
      rw [BitVec.toNat_ofNat]
      omega
    have high : (b.toNat + 256 * value rest) / 256 = value rest := by
      have bound := b.isLt
      omega
    rw [List.length_cons, digits, value, low, high, ih]

theorem value_lt (bytes : List Byte) : value bytes < 256 ^ bytes.length := by
  have back := congrArg value (digits_value bytes)
  rw [value_digits] at back
  rw [← back]
  exact Nat.mod_lt _ (Nat.pow_pos (by omega))

/-- Every list of enough bytes is the layout of a word. -/
theorem layout_word (o : Order) {w n : Nat} (whole : n = 8 * w) {bytes : List Byte}
    (length : bytes.length = w) : layout o w (word o n bytes) = bytes := by
  have fits (l : List Byte) (long : l.length = w) :
      digits w (BitVec.ofNat n (value l)).toNat = l := by
    have size : 2 ^ n = 256 ^ w := by
      rw [whole, pow_mul]
      norm_num
    have below := value_lt l
    rw [long] at below
    rw [BitVec.toNat_ofNat, size, Nat.mod_eq_of_lt below, ← long, digits_value]
  cases o with
  | little => exact fits bytes length
  | big =>
    rw [layout, word, fits bytes.reverse (by simpa using length), List.reverse_reverse]

theorem layout_flip (o : Order) (w : Nat) {n : Nat} (x : BitVec n) :
    layout o.flip w x = (layout o w x).reverse := by
  cases o <;> simp [layout, Order.flip]

theorem word_flip (o : Order) (n : Nat) (bytes : List Byte) :
    word o.flip n bytes = word o n bytes.reverse := by
  cases o <;> simp [word, Order.flip]

/-! ## Blocks of memory -/

variable {α β : Type}

/-- The block after `cells` was copied into it. -/
def store (m : List α) (off : Nat) (cells : List α) : Option (List α) :=
  if off + cells.length ≤ m.length then
    some (m.take off ++ cells ++ m.drop (off + cells.length))
  else none

def load (m : List α) (off n : Nat) : Option (List α) :=
  if off + n ≤ m.length then some ((m.drop off).take n) else none

theorem store_inside {m : List α} {off : Nat} {cells : List α}
    (inside : off + cells.length ≤ m.length) :
    ∃ m', store m off cells = some m' ∧ m'.length = m.length ∧
      m'.take (off + cells.length) = m.take off ++ cells ∧
      m'.drop (off + cells.length) = m.drop (off + cells.length) := by
  have front : (m.take off ++ cells).length = off + cells.length := by
    simp
    omega
  refine ⟨m.take off ++ cells ++ m.drop (off + cells.length), by simp [store, inside], ?_, ?_, ?_⟩
  · simp
    omega
  · rw [← front, List.take_left]
  · rw [← front, List.drop_left]

theorem load_inside {m : List α} {off n : Nat} (inside : off + n ≤ m.length) :
    load m off n = some ((m.drop off).take n) := by
  simp [load, inside]

/-- What was stored is loaded again. -/
theorem load_store_same {m m' cells : List α} {off : Nat} (stored : store m off cells = some m') :
    load m' off cells.length = some cells := by
  unfold store at stored
  split at stored
  · rename_i inside
    cases stored
    unfold load
    have before : (m.take off).length = off := by
      rw [List.length_take]
      omega
    rw [if_pos (by simp; omega), List.append_assoc, List.drop_left' before, List.take_left]
  · cases stored

/-- A store keeps what lies before it. -/
theorem load_store_before {m m' cells : List α} {off off' n : Nat}
    (stored : store m off cells = some m') (before : off' + n ≤ off) :
    load m' off' n = load m off' n := by
  unfold store at stored
  split at stored
  · rename_i inside
    cases stored
    have front : (m.take off).length = off := by
      rw [List.length_take]
      omega
    unfold load
    rw [if_pos (by simp; omega), if_pos (by omega), List.append_assoc,
      List.drop_append_of_le_length (by omega), List.take_append_of_le_length (by simp; omega),
      List.drop_take, List.take_take, Nat.min_eq_left (by omega)]
  · cases stored

theorem store_length {m m' cells : List α} {off : Nat} (stored : store m off cells = some m') :
    m'.length = m.length := by
  unfold store at stored
  split at stored
  · cases stored
    simp
    omega
  · cases stored

/-- The `k` elements of `w` cells each that a list of cells starts with. -/
def elements (w : Nat) (f : List α → β) : Nat → List α → List β
  | 0, _ => []
  | k + 1, l => f (l.take w) :: elements w f k (l.drop w)

@[simp] theorem length_elements (w : Nat) (f : List α → β) (k : Nat) (l : List α) :
    (elements w f k l).length = k := by
  induction k generalizing l with
  | zero => simp [elements]
  | succ k ih => simp [elements, ih]

/-- Elements that were laid out one behind the other are found again. -/
theorem elements_flatMap {w : Nat} {f : List α → β} {lay : β → List α}
    (size : ∀ x, (lay x).length = w) (back : ∀ x, f (lay x) = x) (xs : List β) (rest : List α) :
    elements w f xs.length (xs.flatMap lay ++ rest) = xs := by
  induction xs with
  | nil => simp [elements]
  | cons x xs ih =>
    have front : ((x :: xs).flatMap lay ++ rest).take w = lay x := by
      rw [List.flatMap_cons, List.append_assoc, ← size x, List.take_left]
    have behind : ((x :: xs).flatMap lay ++ rest).drop w = xs.flatMap lay ++ rest := by
      rw [List.flatMap_cons, List.append_assoc, ← size x, List.drop_left]
    rw [List.length_cons, elements, front, behind, back, ih]

theorem length_flatMap_layout {w : Nat} {lay : β → List α} (size : ∀ x, (lay x).length = w)
    (xs : List β) : (xs.flatMap lay).length = w * xs.length := by
  induction xs with
  | nil => simp
  | cons x xs ih =>
    rw [List.flatMap_cons, List.length_append, size, ih, List.length_cons]
    ring

theorem elements_take {w : Nat} {f : List α → β} {k m : Nat} (l : List α) (enough : w * k ≤ m) :
    elements w f k (l.take m) = elements w f k l := by
  induction k generalizing l m with
  | zero => simp [elements]
  | succ k ih =>
    have split : w * (k + 1) = w + w * k := by ring
    rw [elements, elements, List.take_take, Nat.min_eq_left (by omega), List.drop_take,
      ih _ (by omega)]

end Bytes
