import Mathlib.Data.List.Basic
import Mathlib.Data.List.Nodup

/-!
# Tables of records that carry their own key

A table is a list of records and a function `key` that reads a record's key.
`lookup` finds the record of a key, `replace` stores a record under its own
key, `adjust` rewrites the record of a key in place, `drop` removes it. The
rules say which records a changed table has; none of them needs the keys to be
distinct.
-/
namespace Keyed

variable {κ α : Type*} [DecidableEq κ] (key : α → κ)

def lookup (k : κ) (table : List α) : Option α := table.find? (fun a => key a = k)

def adjust (k : κ) (f : α → α) (table : List α) : List α :=
  table.map fun a => if key a = k then f a else a

def replace (a : α) (table : List α) : List α := adjust key (key a) (fun _ => a) table

def drop (k : κ) (table : List α) : List α := table.filter (fun a => key a ≠ k)

variable {key}

theorem lookup_mem {k : κ} {table : List α} {a : α} (found : lookup key k table = some a) :
    a ∈ table := List.mem_of_find?_eq_some found

theorem lookup_key {k : κ} {table : List α} {a : α} (found : lookup key k table = some a) :
    key a = k := by
  have holds := List.find?_some found
  simpa using holds

theorem lookup_of_mem {k : κ} {table : List α} {a : α} (member : a ∈ table) (hk : key a = k) :
    ∃ b, lookup key k table = some b := by
  cases found : lookup key k table with
  | some b => exact ⟨b, rfl⟩
  | none =>
    have absent := List.find?_eq_none.mp found a member
    simp [hk] at absent

theorem lookup_eq_none {k : κ} {table : List α} :
    lookup key k table = none ↔ ∀ a ∈ table, key a ≠ k := by
  simp [lookup, List.find?_eq_none]

/-- With distinct keys a record is the one found under its key. -/
theorem lookup_of_nodup {table : List α} (distinct : (table.map key).Nodup) {a : α}
    (member : a ∈ table) : lookup key (key a) table = some a := by
  obtain ⟨b, found⟩ : ∃ b, lookup key (key a) table = some b := lookup_of_mem member rfl
  have same : b = a :=
    List.inj_on_of_nodup_map distinct (lookup_mem found) member (lookup_key found)
  rw [found, same]

/-- With distinct keys the records of a key are the one that is found. -/
theorem filter_key_of_nodup {table : List α} (distinct : (table.map key).Nodup) (k : κ) :
    table.filter (fun a => key a = k) = (lookup key k table).toList := by
  induction table with
  | nil => rfl
  | cons a rest ih =>
    rw [List.map_cons, List.nodup_cons] at distinct
    have later := ih distinct.2
    unfold lookup at later ⊢
    by_cases same : key a = k
    · have others : rest.filter (fun b => key b = k) = [] := by
        refine List.filter_eq_nil_iff.mpr fun b member => ?_
        rw [decide_eq_true_eq, ← same]
        exact fun equal => distinct.1 (equal ▸ List.mem_map_of_mem member)
      simp [same, others]
    · simp [same, later]

/-- Rewriting records in place under their own keys rewrites what is found. -/
theorem lookup_map {f : α → α} {table : List α} (keeps : ∀ a ∈ table, key (f a) = key a) (k : κ) :
    lookup key k (table.map f) = (lookup key k table).map f := by
  induction table with
  | nil => rfl
  | cons a rest ih =>
    have later := ih fun b member => keeps b (List.mem_cons_of_mem a member)
    have here := keeps a List.mem_cons_self
    unfold lookup at later ⊢
    by_cases same : key a = k
    · simp [here, same]
    · simp [here, same, later]

theorem mem_adjust {k : κ} {f : α → α} {table : List α} {b : α} :
    b ∈ adjust key k f table ↔
      (b ∈ table ∧ key b ≠ k) ∨ ∃ a ∈ table, key a = k ∧ f a = b := by
  constructor
  · intro member
    obtain ⟨a, belongs, rfl⟩ := List.mem_map.mp member
    by_cases hk : key a = k
    · exact .inr ⟨a, belongs, hk, by simp [hk]⟩
    · left
      simp only [hk, if_false]
      exact ⟨belongs, hk⟩
  · rintro (⟨belongs, hk⟩ | ⟨a, belongs, hk, rfl⟩)
    · exact List.mem_map.mpr ⟨b, belongs, by simp [hk]⟩
    · exact List.mem_map.mpr ⟨a, belongs, by simp [hk]⟩

/-- What holds of every record still does once the adjusted one is shown to satisfy it. -/
theorem forall_adjust {p : α → Prop} {k : κ} {f : α → α} {table : List α}
    (before : ∀ a ∈ table, p a) (adjusted : ∀ a ∈ table, key a = k → p a → p (f a)) :
    ∀ b ∈ adjust key k f table, p b := by
  intro b member
  rcases mem_adjust.mp member with ⟨belongs, _⟩ | ⟨a, belongs, hk, rfl⟩
  · exact before b belongs
  · exact adjusted a belongs hk (before a belongs)

/-- Adjusting under a key that no record has. -/
theorem adjust_of_absent {k : κ} {f : α → α} {table : List α} (absent : ∀ a ∈ table, key a ≠ k) :
    adjust key k f table = table := by
  have kept : ∀ a ∈ table, (if key a = k then f a else a) = a := by
    intro a member
    rw [if_neg (absent a member)]
  rw [adjust, List.map_congr_left kept, List.map_id']

theorem mem_replace {a : α} {table : List α} {b : α} (member : b ∈ replace key a table) :
    b = a ∨ (b ∈ table ∧ key b ≠ key a) := by
  rcases mem_adjust.mp member with kept | ⟨_, _, _, rfl⟩
  · exact .inr kept
  · exact .inl rfl

theorem forall_replace {p : α → Prop} {a : α} {table : List α}
    (before : ∀ b ∈ table, p b) (stored : p a) : ∀ b ∈ replace key a table, p b := by
  intro b member
  rcases mem_replace member with rfl | ⟨belongs, _⟩
  · exact stored
  · exact before b belongs

/-- A projection that the adjustment keeps reads the same in the whole table. -/
theorem map_adjust {β : Type*} {g : α → β} {k : κ} {f : α → α} (keeps : ∀ a, g (f a) = g a)
    (table : List α) : (adjust key k f table).map g = table.map g := by
  simp only [adjust, List.map_map]
  refine List.map_congr_left fun a _ => ?_
  by_cases hk : key a = k <;> simp [hk, keeps]

/-- Adjusting commutes with a projection that keeps the key. -/
theorem map_adjust_comm {β : Type*} {g : α → β} {key' : β → κ} {k : κ} {f : α → α} {f' : β → β}
    (keeps : ∀ a, key' (g a) = key a) (comm : ∀ a, g (f a) = f' (g a)) (table : List α) :
    (adjust key k f table).map g = adjust key' k f' (table.map g) := by
  simp only [adjust, List.map_map]
  refine List.map_congr_left fun a _ => ?_
  by_cases hk : key a = k
  · simp [keeps, hk, comm]
  · simp [keeps, hk]

theorem map_key_adjust {k : κ} {f : α → α} (keeps : ∀ a, key a = k → key (f a) = k)
    (table : List α) : (adjust key k f table).map key = table.map key := by
  simp only [adjust, List.map_map]
  refine List.map_congr_left fun a _ => ?_
  by_cases hk : key a = k
  · simp [hk, keeps a hk]
  · simp [hk]

theorem map_key_replace (a : α) (table : List α) :
    (replace key a table).map key = table.map key :=
  map_key_adjust (fun _ _ => rfl) table

/-- Finding a record in an adjusted table is finding it before and adjusting it. -/
theorem lookup_adjust {k : κ} {f : α → α} (keeps : ∀ a, key a = k → key (f a) = k) (k' : κ)
    (table : List α) :
    lookup key k' (adjust key k f table) =
      (lookup key k' table).map (fun a => if key a = k then f a else a) := by
  induction table with
  | nil => rfl
  | cons a rest ih =>
    have head_key : key (if key a = k then f a else a) = key a := by
      split
      · rename_i hk
        rw [keeps a hk, hk]
      · rfl
    simp only [lookup, adjust, List.map_cons, List.find?_cons, head_key] at ih ⊢
    by_cases hk : key a = k'
    · simp [hk]
    · simpa [hk] using ih

theorem lookup_replace {a b : α} {k : κ} {table : List α}
    (found : lookup key k (replace key a table) = some b) :
    (k = key a ∧ b = a) ∨ (k ≠ key a ∧ lookup key k table = some b) := by
  unfold replace at found
  rw [lookup_adjust (fun _ _ => rfl)] at found
  obtain ⟨c, before, rfl⟩ := Option.map_eq_some_iff.mp found
  have hc : key c = k := lookup_key before
  by_cases hk : k = key a
  · left
    exact ⟨hk, by simp [hc, hk]⟩
  · right
    refine ⟨hk, ?_⟩
    rw [hc, if_neg hk]
    exact before

theorem lookup_replace_eq (a : α) (k : κ) (table : List α) :
    lookup key k (replace key a table) =
      if k = key a then (lookup key k table).map (fun _ => a) else lookup key k table := by
  rw [replace, lookup_adjust (fun _ _ => rfl)]
  cases found : lookup key k table with
  | none => simp
  | some b =>
    have same : key b = k := lookup_key found
    by_cases hk : k = key a <;> simp [same, hk]

theorem mem_drop {k : κ} {table : List α} {a : α} :
    a ∈ drop key k table ↔ a ∈ table ∧ key a ≠ k := by
  simp [drop]

theorem map_key_drop (k : κ) (table : List α) :
    (drop key k table).map key = (table.map key).filter (fun k' => k' ≠ k) := by
  simp only [drop, List.filter_map]
  rfl

end Keyed
