import Mathlib.Data.Finset.Sort
import Mathlib.Data.List.Perm.Basic

/-!
# Tables of what belongs to a key

A table gives each key the members it has, or how many of them there are; a key
without members is in no line of it.
-/
namespace Tables

variable {κ α σ : Type}

/-! ## Lists of members -/

/-- Each key with its members, where it has any. -/
def grouped (key : σ → κ) (members : σ → List α) (sources : List σ) : List (κ × List α) :=
  (sources.map fun s => (key s, members s)).filter fun line => !line.2.isEmpty

/-- The table lists the members under their keys, one line for each key and nothing twice. -/
structure Lists (table : List (κ × List α)) (belongs : κ → α → Prop) : Prop where
  keys : (table.map Prod.fst).Nodup
  filled : ∀ line ∈ table, line.2 ≠ []
  members : ∀ line ∈ table, line.2.Nodup
  listed : ∀ k a, (∃ line ∈ table, line.1 = k ∧ a ∈ line.2) ↔ belongs k a

variable {key : σ → κ} {members : σ → List α} {sources : List σ}
  {table : List (κ × List α)} {belongs other : κ → α → Prop}

theorem mem_grouped {line : κ × List α} : line ∈ grouped key members sources ↔
    (∃ s ∈ sources, line = (key s, members s)) ∧ line.2 ≠ [] := by
  simp only [grouped, List.mem_filter, List.mem_map, Bool.not_eq_true', List.isEmpty_eq_false_iff]
  constructor
  · rintro ⟨⟨s, source, rfl⟩, filled⟩
    exact ⟨⟨s, source, rfl⟩, filled⟩
  · rintro ⟨⟨s, source, rfl⟩, filled⟩
    exact ⟨⟨s, source, rfl⟩, filled⟩

theorem grouped_lists (key : σ → κ) (members : σ → List α) (sources : List σ)
    (keys : (sources.map key).Nodup) (apart : ∀ s ∈ sources, (members s).Nodup) :
    Lists (grouped key members sources) fun k a => ∃ s ∈ sources, key s = k ∧ a ∈ members s := by
  refine ⟨?_, fun line member => (mem_grouped.mp member).2, fun line member => ?_, fun k a => ?_⟩
  · have all : ((sources.map fun s => (key s, members s)).map Prod.fst).Nodup := by
      rwa [List.map_map]
    exact all.sublist (List.filter_sublist.map Prod.fst)
  · obtain ⟨⟨s, source, rfl⟩, _⟩ := mem_grouped.mp member
    exact apart s source
  · constructor
    · rintro ⟨line, member, rfl, inside⟩
      obtain ⟨⟨s, source, rfl⟩, _⟩ := mem_grouped.mp member
      exact ⟨s, source, rfl, inside⟩
    · rintro ⟨s, source, rfl, inside⟩
      exact ⟨(key s, members s), mem_grouped.mpr ⟨⟨s, source, rfl⟩, List.ne_nil_of_mem inside⟩,
        rfl, inside⟩

/-- A table lists one thing only. -/
theorem Lists.lists_iff (lists : Lists table belongs) :
    Lists table other ↔ ∀ k a, belongs k a ↔ other k a := by
  constructor
  · intro same k a
    rw [← lists.listed, same.listed]
  · intro same
    exact ⟨lists.keys, lists.filled, lists.members, fun k a => (lists.listed k a).trans (same k a)⟩

/-! ## Counts -/

/-- How often each key occurs, in the order of the keys. -/
def tally (keys : List Nat) : List (Nat × Nat) :=
  (keys.toFinset.sort (· ≤ ·)).map fun k => (k, keys.count k)

/-- The table counts the keys, one line for each that occurs. -/
structure Counts (table : List (Nat × Nat)) (keys : List Nat) : Prop where
  lines : (table.map Prod.fst).Nodup
  counted : ∀ k n, (k, n) ∈ table ↔ k ∈ keys ∧ n = keys.count k

theorem tally_counts (keys : List Nat) : Counts (tally keys) keys := by
  constructor
  · rw [tally, List.map_map]
    have same : Prod.fst ∘ (fun k => (k, keys.count k)) = id := rfl
    rw [same, List.map_id]
    exact Finset.sort_nodup _ _
  · intro k n
    simp only [tally, List.mem_map, Finset.mem_sort, List.mem_toFinset, Prod.mk.injEq]
    constructor
    · rintro ⟨k', member, rfl, rfl⟩
      exact ⟨member, rfl⟩
    · rintro ⟨member, rfl⟩
      exact ⟨k, member, rfl, rfl⟩

/-- Keys with the same counts are the same keys in some order. -/
theorem Counts.counts_iff {table : List (Nat × Nat)} {keys other : List Nat}
    (counts : Counts table keys) : Counts table other ↔ keys.Perm other := by
  constructor
  · intro same
    rw [List.perm_iff_count]
    intro k
    by_cases member : k ∈ keys
    · have line := (counts.counted k _).mpr ⟨member, rfl⟩
      exact ((same.counted k _).mp line).2
    · have absent : k ∉ other := by
        intro occurs
        have line := (same.counted k _).mpr ⟨occurs, rfl⟩
        exact member ((counts.counted k _).mp line).1
      rw [List.count_eq_zero_of_not_mem member, List.count_eq_zero_of_not_mem absent]
  · intro perm
    refine ⟨counts.lines, fun k n => ?_⟩
    rw [counts.counted, perm.mem_iff, perm.count_eq]

end Tables
