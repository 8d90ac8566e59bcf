import Mathlib.Data.List.Sort
import Mathlib.Data.List.Nodup

/-!
# Maps kept as ascending lists

A `std::map` whose records carry their own key is the list of its records in
ascending order of the keys. `store` puts a record in its place and takes over
the place of a record with the same key.
-/
namespace Ascending

variable {κ α : Type*} [LinearOrder κ] (key : α → κ)

def store (a : α) : List α → List α
  | [] => [a]
  | b :: rest =>
    if key a < key b then a :: b :: rest
    else if key a = key b then a :: rest
    else b :: store a rest

def Ascends (l : List α) : Prop := l.Pairwise fun a b => key a < key b

variable {key}

theorem mem_store {a b : α} {l : List α} (ascends : Ascends key l) :
    b ∈ store key a l ↔ b = a ∨ (b ∈ l ∧ key b ≠ key a) := by
  induction l with
  | nil => simp [store]
  | cons c rest ih =>
    obtain ⟨first, later⟩ := List.pairwise_cons.mp ascends
    unfold store
    split
    · rename_i below
      have apart : ∀ d ∈ c :: rest, key d ≠ key a := by
        intro d member
        rcases List.mem_cons.mp member with rfl | inside
        · exact ne_of_gt below
        · exact ne_of_gt (below.trans (first d inside))
      constructor
      · intro member
        rcases List.mem_cons.mp member with rfl | inside
        · exact .inl rfl
        · exact .inr ⟨inside, apart b inside⟩
      · rintro (rfl | ⟨inside, _⟩)
        · exact List.mem_cons_self
        · exact List.mem_cons_of_mem a inside
    · rename_i notBelow
      split
      · rename_i same
        constructor
        · intro member
          rcases List.mem_cons.mp member with rfl | inside
          · exact .inl rfl
          · right
            refine ⟨List.mem_cons_of_mem c inside, ?_⟩
            rw [same]
            exact ne_of_gt (first b inside)
        · rintro (rfl | ⟨inside, apart⟩)
          · exact List.mem_cons_self
          · rcases List.mem_cons.mp inside with rfl | inside
            · exact absurd same.symm apart
            · exact List.mem_cons_of_mem a inside
      · rename_i apart
        rw [List.mem_cons, ih later, List.mem_cons]
        constructor
        · rintro (rfl | rfl | ⟨inside, differs⟩)
          · exact .inr ⟨.inl rfl, fun same => apart same.symm⟩
          · exact .inl rfl
          · exact .inr ⟨.inr inside, differs⟩
        · rintro (rfl | ⟨rfl | inside, differs⟩)
          · exact .inr (.inl rfl)
          · exact .inl rfl
          · exact .inr (.inr ⟨inside, differs⟩)

/-- A record whose key is above all others goes to the end. -/
theorem store_last {a : α} {l : List α} (above : ∀ b ∈ l, key b < key a) :
    store key a l = l ++ [a] := by
  induction l with
  | nil => rfl
  | cons c rest ih =>
    have first := above c List.mem_cons_self
    rw [store, if_neg (lt_asymm first), if_neg (ne_of_gt first),
      ih fun b member => above b (List.mem_cons_of_mem c member)]
    rfl

theorem ascends_store {a : α} {l : List α} (ascends : Ascends key l) :
    Ascends key (store key a l) := by
  induction l with
  | nil => simp [store, Ascends]
  | cons c rest ih =>
    obtain ⟨first, later⟩ := List.pairwise_cons.mp ascends
    unfold store
    split
    · rename_i below
      refine List.pairwise_cons.mpr ⟨?_, ascends⟩
      intro d member
      rcases List.mem_cons.mp member with rfl | inside
      · exact below
      · exact below.trans (first d inside)
    · rename_i notBelow
      split
      · rename_i same
        refine List.pairwise_cons.mpr ⟨?_, later⟩
        intro d member
        rw [same]
        exact first d member
      · rename_i apart
        refine List.pairwise_cons.mpr ⟨?_, ih later⟩
        intro d member
        rcases (mem_store later).mp member with rfl | ⟨inside, _⟩
        · exact lt_of_le_of_ne (not_lt.mp notBelow) fun same => apart same.symm
        · exact first d inside

/-- Records stored one after the other, when no two of them have one key. -/
def stores (key : α → κ) (l new : List α) : List α := new.foldl (fun l a => store key a l) l

theorem ascends_stores (new : List α) {l : List α} (ascends : Ascends key l) :
    Ascends key (stores key l new) := by
  induction new generalizing l with
  | nil => exact ascends
  | cons a rest ih => exact ih (ascends_store ascends)

theorem mem_stores {new : List α} (distinct : (new.map key).Nodup) {b : α} {l : List α}
    (ascends : Ascends key l) :
    b ∈ stores key l new ↔ b ∈ new ∨ (b ∈ l ∧ key b ∉ new.map key) := by
  induction new generalizing l with
  | nil => simp [stores]
  | cons a rest ih =>
    obtain ⟨apart, later⟩ := List.nodup_cons.mp distinct
    have stored := ih later (ascends_store (a := a) ascends)
    rw [show stores key l (a :: rest) = stores key (store key a l) rest from rfl, stored,
      mem_store ascends, List.map_cons, List.mem_cons, List.mem_cons]
    constructor
    · rintro (inside | ⟨rfl | ⟨old, other⟩, absent⟩)
      · exact .inl (.inr inside)
      · exact .inl (.inl rfl)
      · exact .inr ⟨old, fun taken => taken.elim other absent⟩
    · rintro ((rfl | inside) | ⟨old, absent⟩)
      · exact .inr ⟨.inl rfl, apart⟩
      · exact .inl inside
      · exact .inr ⟨.inr ⟨old, fun same => absent (.inl same)⟩, fun taken => absent (.inr taken)⟩

/-- An ascending list is determined by its records. -/
theorem ext {l l' : List α} (ascends : Ascends key l) (ascends' : Ascends key l')
    (same : ∀ a, a ∈ l ↔ a ∈ l') : l = l' := by
  have irreflexive : ∀ {m : List α}, Ascends key m → m.Nodup := by
    intro m h
    refine List.Pairwise.imp ?_ h
    intro a b below equal
    exact absurd below (by simp [equal])
  have permuted : l.Perm l' :=
    (List.perm_ext_iff_of_nodup (irreflexive ascends) (irreflexive ascends')).mpr same
  refine permuted.eq_of_pairwise ?_ ascends ascends'
  intro a b _ _ below above
  exact absurd (below.trans above) (lt_irrefl _)

theorem Ascends.nodup_keys {l : List α} (ascends : Ascends key l) : (l.map key).Nodup := by
  refine List.pairwise_map.mpr (ascends.imp ?_)
  intro a b below
  exact ne_of_lt below

/-- In an ascending list the records before a given one are those with smaller keys. -/
theorem mem_before {l front rest : List α} {a b : α} (ascends : Ascends key l)
    (split : l = front ++ a :: rest) (member : b ∈ l) : b ∈ front ↔ key b < key a := by
  subst split
  obtain ⟨_, after, across⟩ := List.pairwise_append.mp ascends
  obtain ⟨later, _⟩ := List.pairwise_cons.mp after
  constructor
  · intro inside
    exact across b inside a List.mem_cons_self
  · intro below
    rcases List.mem_append.mp member with inside | inside
    · exact inside
    · rcases List.mem_cons.mp inside with rfl | inside
      · exact absurd below (lt_irrefl _)
      · exact absurd (below.trans (later b inside)) (lt_irrefl _)

end Ascending
