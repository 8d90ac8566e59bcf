import Mathlib.Data.List.Basic
import Mathlib.Data.List.TakeWhile

/-!
# Keys taken out of parallel lists

Two lists hold keys and their values. Taking keys out of the first list only
moves the keys behind them to other values; the pairs are still right exactly
if the values of the keys that stay are the first ones.
-/
namespace Pairing

variable {κ β : Type}

/-- The pairs whose key is known. -/
def pairsOf (known : κ → Bool) (keys : List κ) (values : List β) : List (κ × β) :=
  (keys.zip values).filter fun pair => known pair.1

variable {known kept : κ → Bool}

theorem pairsOf_keys (known : κ → Bool) {keys : List κ} {values : List β}
    (enough : keys.length ≤ values.length) :
    (pairsOf known keys values).map Prod.fst = keys.filter known := by
  induction keys generalizing values with
  | nil => rfl
  | cons k rest ih =>
    cases values with
    | nil => cases enough
    | cons v values =>
      have later := ih (Nat.le_of_succ_le_succ enough)
      unfold pairsOf at later ⊢
      cases holds : known k with
      | false => simp [holds, later]
      | true => simp [holds, later]

/-- Pairs are what is paired. -/
theorem zip_map (pairs : List (κ × β)) : (pairs.map Prod.fst).zip (pairs.map Prod.snd) = pairs := by
  induction pairs with
  | nil => rfl
  | cons pair rest ih => simp [ih]

theorem snd_zip_leading (keys : List κ) (values : List β) :
    (keys.zip values).map Prod.snd <+: values := by
  induction keys generalizing values with
  | nil => exact List.nil_prefix
  | cons k rest ih =>
    cases values with
    | nil => exact List.prefix_rfl
    | cons v values => exact (List.prefix_cons_inj v).mpr (ih values)

/-- Values beyond the last key are in no pair. -/
theorem zip_take (keys : List κ) (values : List β) :
    keys.zip (values.take keys.length) = keys.zip values := by
  induction keys generalizing values with
  | nil => rfl
  | cons k rest ih =>
    cases values with
    | nil => rfl
    | cons v values => simp [ih]

/-- Some of the known keys are all of them if there are as many. -/
theorem filter_eq_iff (implies : ∀ k, kept k = true → known k = true) (keys : List κ) :
    keys.filter kept = keys.filter known ↔ ∀ k ∈ keys, known k = true → kept k = true := by
  constructor
  · intro same k member holds
    have listed : k ∈ keys.filter known := List.mem_filter.mpr ⟨member, holds⟩
    rw [← same] at listed
    exact (List.mem_filter.mp listed).2
  · intro all
    refine List.filter_congr fun k member => ?_
    rw [Bool.eq_iff_iff]
    exact ⟨implies k, all k member⟩

/-- The first keys, as far as they are kept, are the known ones. -/
theorem taken_iff (implies : ∀ k, kept k = true → known k = true) (keys : List κ) (n : Nat) :
    (keys.take n).filter kept = keys.filter known ↔
      (∀ k ∈ keys.drop n, known k = false) ∧
        ∀ k ∈ keys.take n, known k = true → kept k = true := by
  have split : keys.filter known = (keys.take n).filter known ++ (keys.drop n).filter known := by
    rw [← List.filter_append, List.take_append_drop]
  constructor
  · intro same
    have fewer : ((keys.take n).filter kept).length ≤ ((keys.take n).filter known).length :=
      (List.monotone_filter_right _ implies).length_le
    have lengths := congrArg List.length (same.trans split)
    rw [List.length_append] at lengths
    have none : (keys.drop n).filter known = [] := List.eq_nil_of_length_eq_zero (by omega)
    rw [split, none, List.append_nil] at same
    refine ⟨fun k member => ?_, (filter_eq_iff implies _).mp same⟩
    by_contra holds
    rw [Bool.not_eq_false] at holds
    exact List.not_mem_nil (none ▸ List.mem_filter.mpr ⟨member, holds⟩)
  · rintro ⟨unknown, all⟩
    have none : (keys.drop n).filter known = [] := by
      rw [List.filter_eq_nil_iff]
      intro k member
      rw [unknown k member]
      exact Bool.false_ne_true
    rw [split, none, List.append_nil]
    exact (filter_eq_iff implies _).mpr all

theorem pairsOf_values_leading {keys : List κ} {values : List β} {n : Nat}
    (paired : ((keys.take n).filter kept).zip (values.take n) = pairsOf known keys values) :
    (pairsOf known keys values).map Prod.snd <+: values := by
  rw [← paired]
  exact (snd_zip_leading _ _).trans (List.take_prefix n values)

/-- Keys beyond the last value are in no pair. -/
theorem pairsOf_take (known : κ → Bool) (keys : List κ) (values : List β) (n : Nat)
    (unknown : ∀ k ∈ keys.drop n, known k = false) :
    pairsOf known keys values = pairsOf known (keys.take n) values := by
  induction keys generalizing values n with
  | nil => simp
  | cons k rest ih =>
    cases values with
    | nil => simp [pairsOf]
    | cons v values =>
      cases n with
      | zero =>
        have off : known k = false := unknown k List.mem_cons_self
        have later := ih values 0 fun k' member =>
          unknown k' (List.mem_cons_of_mem k member)
        unfold pairsOf at later ⊢
        simpa [off] using later
      | succ n =>
        have later := ih values n unknown
        unfold pairsOf at later ⊢
        simp only [List.take_succ_cons, List.zip_cons_cons, List.filter_cons, later]

/-- A key that occurs once is paired with the value of its place. -/
theorem mem_zip_iff [DecidableEq κ] {keys : List κ} (distinct : keys.Nodup) {k : κ}
    (member : k ∈ keys) (values : List β) (v : β) :
    (k, v) ∈ keys.zip values ↔ values[keys.idxOf k]? = .some v := by
  induction keys generalizing values with
  | nil => cases member
  | cons first rest ih =>
    rw [List.nodup_cons] at distinct
    cases values with
    | nil => simp
    | cons w values =>
      rw [List.zip_cons_cons, List.mem_cons]
      by_cases same : first = k
      · subst same
        have absent : ¬ (first, v) ∈ rest.zip values :=
          fun inside => distinct.1 (List.of_mem_zip inside).1
        rw [List.idxOf_cons_self, List.getElem?_cons_zero]
        constructor
        · rintro (here | later)
          · rw [(Prod.mk.inj here).2]
          · exact absurd later absent
        · intro here
          exact .inl (by rw [Option.some.inj here])
      · have inside : k ∈ rest := (List.mem_cons.mp member).resolve_left (Ne.symm same)
        rw [List.idxOf_cons_ne _ same, List.getElem?_cons_succ, ← ih distinct.2 inside values]
        constructor
        · rintro (here | later)
          · exact absurd (Prod.mk.inj here).1 (Ne.symm same)
          · exact later
        · exact .inr

/-- Keys are taken out, values are not: what is still paired right. -/
theorem taken_pairs_iff (implies : ∀ k, kept k = true → known k = true) {keys : List κ}
    {values : List β} {n : Nat} (enough : (keys.take n).length ≤ values.length) :
    ((keys.take n).filter kept = keys.filter known ∧
        ((keys.take n).filter kept).zip (values.take n) = pairsOf known keys values) ↔
      (∀ k ∈ keys.drop n, known k = false) ∧
        (∀ k ∈ keys.take n, known k = true → kept k = true) ∧
          (pairsOf known keys values).map Prod.snd <+: values := by
  constructor
  · rintro ⟨same, paired⟩
    obtain ⟨unknown, all⟩ := (taken_iff implies keys n).mp same
    exact ⟨unknown, all, pairsOf_values_leading paired⟩
  · rintro ⟨unknown, all, first⟩
    have same := (taken_iff implies keys n).mpr ⟨unknown, all⟩
    refine ⟨same, ?_⟩
    have firsts : (pairsOf known keys values).map Prod.fst = (keys.take n).filter kept := by
      rw [pairsOf_take known keys values n unknown, pairsOf_keys known enough]
      exact ((filter_eq_iff implies _).mpr all).symm
    have lengths := congrArg List.length firsts
    rw [List.length_map] at lengths
    have seconds : (pairsOf known keys values).map Prod.snd =
        values.take ((keys.take n).filter kept).length := by
      rw [List.prefix_iff_eq_take.mp first, List.length_map, lengths]
    have few : ((keys.take n).filter kept).length ≤ n :=
      (List.length_filter_le _ _).trans (List.length_take_le n keys)
    rw [← zip_map (pairsOf known keys values), firsts, seconds, zip_take,
      ← zip_take _ (values.take n), List.take_take, Nat.min_eq_left few, zip_take]

end Pairing
