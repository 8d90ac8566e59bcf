import Mathlib.Algebra.Order.Group.Nat
import Mathlib.Data.List.Range
import Mathlib.Tactic.Ring

/-!
# Items packed one after the other

Items of any size, each starting at the first multiple of a boundary that is not
before the end of the item in front of it.
-/
namespace Packing

/-- The smallest number that completes `n` to a multiple of `b`. -/
def pad (n b : Nat) : Nat := (b - n % b) % b

def alignUp (n b : Nat) : Nat := n + pad n b

theorem le_alignUp (n b : Nat) : n ≤ alignUp n b := Nat.le_add_right n _

theorem dvd_alignUp (n : Nat) {b : Nat} (positive : 0 < b) : b ∣ alignUp n b := by
  have below := Nat.mod_lt n positive
  have split := Nat.div_add_mod n b
  unfold alignUp pad
  rcases Nat.eq_zero_or_pos (n % b) with whole | rest
  · rw [whole, Nat.sub_zero, Nat.mod_self]
    exact Nat.dvd_of_mod_eq_zero whole
  · rw [Nat.mod_eq_of_lt (by omega)]
    refine ⟨n / b + 1, ?_⟩
    rw [Nat.mul_add, Nat.mul_one]
    omega

theorem pad_of_dvd {n b : Nat} (whole : b ∣ n) : pad n b = 0 := by
  rw [pad, Nat.mod_eq_zero_of_dvd whole, Nat.sub_zero, Nat.mod_self]

theorem alignUp_of_dvd {n b : Nat} (whole : b ∣ n) : alignUp n b = n := by
  rw [alignUp, pad_of_dvd whole, Nat.add_zero]

theorem pad_add {k n b : Nat} (whole : b ∣ k) : pad (k + n) b = pad n b := by
  obtain ⟨q, rfl⟩ := whole
  rw [pad, Nat.mul_add_mod, pad]

theorem alignUp_add {k n b : Nat} (whole : b ∣ k) : alignUp (k + n) b = k + alignUp n b := by
  rw [alignUp, pad_add whole, alignUp, Nat.add_assoc]

/-! ## Items of one boundary -/

/-- Where the item with the given index starts; `size o` is the size of an item at `o`. -/
def place (size : Nat → Nat) (b start : Nat) : Nat → Nat
  | 0 => start
  | i + 1 => alignUp (place size b start i + size (place size b start i)) b

/-- Where the last of `count` items ends. -/
def packed (size : Nat → Nat) (b start : Nat) : Nat → Nat
  | 0 => start
  | i + 1 => place size b start i + size (place size b start i)

variable {size : Nat → Nat} {b start : Nat}

theorem dvd_place (positive : 0 < b) (aligned : b ∣ start) (i : Nat) :
    b ∣ place size b start i := by
  cases i with
  | zero => exact aligned
  | succ i => exact dvd_alignUp _ positive

theorem place_end_le {i j : Nat} (before : i < j) :
    place size b start i + size (place size b start i) ≤ place size b start j := by
  induction j with
  | zero => omega
  | succ j ih =>
    have grows := le_alignUp (place size b start j + size (place size b start j)) b
    change _ ≤ alignUp (place size b start j + size (place size b start j)) b
    rcases Nat.lt_succ_iff_lt_or_eq.mp before with earlier | rfl
    · have := ih earlier
      omega
    · exact grows

theorem start_le_place (i : Nat) : start ≤ place size b start i := by
  cases i with
  | zero => exact Nat.le_refl _
  | succ i => exact Nat.le_trans (Nat.le_add_right _ _) (place_end_le (Nat.succ_pos i))

theorem place_end_le_packed {i n : Nat} (within : i < n) :
    place size b start i + size (place size b start i) ≤ packed size b start n := by
  cases n with
  | zero => omega
  | succ n =>
    rcases Nat.lt_succ_iff_lt_or_eq.mp within with earlier | rfl
    · exact Nat.le_trans (place_end_le earlier) (Nat.le_add_right _ _)
    · exact Nat.le_refl _

theorem start_le_packed (n : Nat) : start ≤ packed size b start n := by
  cases n with
  | zero => exact Nat.le_refl _
  | succ n => exact Nat.le_trans (start_le_place n) (Nat.le_add_right _ _)

theorem packed_le_place (n : Nat) : packed size b start n ≤ place size b start n := by
  cases n with
  | zero => exact Nat.le_refl _
  | succ n => exact le_alignUp _ b

/-! ## Ranges one after the other -/

/-- The ranges lie one behind the other between the two ends; the last one is up to the end. -/
inductive Laid : Nat → List (Nat × Nat) → Nat → Prop
  | nil (s : Nat) : Laid s [] s
  | cons {s first last stop : Nat} {rest : List (Nat × Nat)} (after : s ≤ first)
      (forward : first ≤ last) (others : Laid last rest stop) : Laid s ((first, last) :: rest) stop

namespace Laid

variable {s stop : Nat} {ranges : List (Nat × Nat)}

theorem single {first last : Nat} (after : s ≤ first) (forward : first ≤ last) :
    Laid s [(first, last)] last :=
  .cons after forward (.nil last)

theorem earlier {t : Nat} {r : Nat × Nat} (laid : Laid s (r :: ranges) stop) (before : t ≤ s) :
    Laid t (r :: ranges) stop := by
  cases laid with
  | cons after forward others => exact .cons (Nat.le_trans before after) forward others

theorem append {mid : Nat} {others : List (Nat × Nat)} (front : Laid s ranges mid)
    (back : Laid mid others stop) : Laid s (ranges ++ others) stop := by
  induction front with
  | nil s => exact back
  | cons after forward _ ih => exact .cons after forward (ih back)

theorem bounds (laid : Laid s ranges stop) :
    s ≤ stop ∧ ∀ r ∈ ranges, s ≤ r.1 ∧ r.2 ≤ stop := by
  induction laid with
  | nil s => simp
  | cons after forward _ ih =>
    obtain ⟨ends, inside⟩ := ih
    refine ⟨by omega, fun r member => ?_⟩
    rcases List.mem_cons.mp member with rfl | later
    · exact ⟨after, ends⟩
    · have := inside r later
      omega

theorem pairwise (laid : Laid s ranges stop) : ranges.Pairwise fun a b => a.2 ≤ b.1 := by
  induction laid with
  | nil s => exact List.Pairwise.nil
  | cons _ _ others ih => exact List.pairwise_cons.mpr ⟨fun r h => (others.bounds.2 r h).1, ih⟩

theorem getLast (laid : Laid s ranges stop) : (ranges.getLast?.map Prod.snd).getD s = stop := by
  induction laid with
  | nil s => rfl
  | @cons s first last stop rest _ _ _ ih =>
    rw [← ih]
    cases rest with
    | nil => rfl
    | cons r rest => simp [List.getLast?_cons]

end Laid

theorem laid_places (n : Nat) :
    Laid start ((List.range n).map fun i =>
      (place size b start i, place size b start i + size (place size b start i)))
      (packed size b start n) := by
  induction n with
  | zero => exact .nil start
  | succ n ih =>
    rw [List.range_succ, List.map_append]
    exact ih.append (.single (packed_le_place n) (Nat.le_add_right _ _))

end Packing
