import Mathlib.Data.List.Forall2

/-!
# Reading a buffer

Programs that read a buffer from an index on and leave the index behind what they
read: what such a program makes of octets wherever they stand in a buffer, when two
of them end alike on every buffer, and where a buffer may end.
-/
namespace Reading

variable {ε o α β : Type}

/-- A program over the buffer, the index and the exceptions `ε`. -/
abbrev Reader (ε o : Type) := ReaderT (List o) (StateT Nat (Except ε))

/-- The octet at the index. -/
def next (outside : ε) : Reader ε o o := fun buffer index =>
  match buffer[index]? with
  | some x => .ok (x, index + 1)
  | none => .error outside

def take (outside : ε) : Nat → Reader ε o (List o)
  | 0 => return []
  | n + 1 => do
    let x ← next outside
    return x :: (← take outside n)

def skip (n : Nat) : Reader ε o Unit := modify (· + n)

/-- One after the other, with `P` octets skipped between them. -/
def separately (P : Nat) : List (Reader ε o α) → Reader ε o (List α)
  | [] => return []
  | [r] => do return [← r]
  | r :: rest => do
    let a ← r
    skip P
    return a :: (← separately P rest)

/-- Where these octets stand at the index the reader returns `a` and stops behind them. -/
def Yields (r : Reader ε o α) (octets : List o) (a : α) : Prop :=
  ∀ before after, r (before ++ octets ++ after) before.length =
    .ok (a, before.length + octets.length)

theorem bind_ok {r : Reader ε o α} {f : α → Reader ε o β} {buffer : List o} {index : Nat}
    {result : β × Nat} (done : (r >>= f) buffer index = .ok result) :
    ∃ a index', r buffer index = .ok (a, index') ∧ f a buffer index' = .ok result := by
  change (r buffer index >>= fun x => f x.1 buffer x.2) = _ at done
  cases first : r buffer index with
  | error e =>
    rw [first] at done
    cases done
  | ok x =>
    rw [first] at done
    exact ⟨x.1, x.2, rfl, done⟩

theorem return_ok {r : Reader ε o α} {buffer : List o} {index index' : Nat} {a : α} (f : α → β)
    (done : r buffer index = .ok (a, index')) :
    (do return f (← r) : Reader ε o β) buffer index = .ok (f a, index') := by
  change (r buffer index >>= fun x => _) = _
  rw [done]
  rfl

theorem yields_pure (a : α) : Yields (pure a : Reader ε o α) [] a := by
  intro before after
  rfl

theorem Yields.bind {r : Reader ε o α} {f : α → Reader ε o β} {octets others : List o} {a : α}
    {b : β} (first : Yields r octets a) (second : Yields (f a) others b) :
    Yields (r >>= f) (octets ++ others) b := by
  intro before after
  have one := first before (others ++ after)
  have two := second (before ++ octets) after
  rw [List.length_append] at two
  rw [List.append_assoc before, List.append_assoc octets, ← List.append_assoc before]
  rw [List.append_assoc (before ++ octets)] at two
  change (r _ _ >>= fun x => f x.1 _ x.2) = _
  rw [one]
  change f a _ _ = _
  rw [two, List.length_append, Nat.add_assoc]

theorem Yields.map {r : Reader ε o α} {octets : List o} {a : α} (f : α → β)
    (first : Yields r octets a) : Yields (do return f (← r)) octets (f a) := by
  rw [← List.append_nil octets]
  exact @Yields.bind ε o α β r (fun a => pure (f a)) octets [] a (f a) first (yields_pure (f a))

/-- What follows a reader that does not move. -/
theorem Yields.after {r : Reader ε o α} {f : α → Reader ε o β} {octets : List o} {a : α} {b : β}
    (first : Yields r [] a) (second : Yields (f a) octets b) : Yields (r >>= f) octets b :=
  first.bind second

theorem yields_next (outside : ε) (x : o) : Yields (next outside) [x] x := by
  intro before after
  have here : (before ++ [x] ++ after)[before.length]? = some x := by simp
  simp only [next, here]
  rfl

theorem yields_take (outside : ε) (octets : List o) :
    Yields (take outside octets.length) octets octets := by
  induction octets with
  | nil => exact yields_pure []
  | cons x rest ih => exact (yields_next outside x).bind (ih.map (x :: ·))

theorem yields_skip (octets : List o) : Yields (skip octets.length : Reader ε o Unit) octets () := by
  intro before after
  rfl

/-! ## Readers that end alike -/

variable {γ δ : Type} {R : α → β → Prop} {S : γ → δ → Prop}

/-- With related values and one index, or with one exception. -/
inductive Ends (R : α → β → Prop) : Except ε (α × Nat) → Except ε (β × Nat) → Prop where
  | ok {a : α} {b : β} (index : Nat) (related : R a b) : Ends R (.ok (a, index)) (.ok (b, index))
  | error (e : ε) : Ends R (.error e) (.error e)

/-- On every buffer. -/
def Matches (R : α → β → Prop) (r : Reader ε o α) (r' : Reader ε o β) : Prop :=
  ∀ buffer index, Ends R (r buffer index) (r' buffer index)

theorem matches_self (r : Reader ε o α) : Matches Eq r r := by
  intro buffer index
  cases r buffer index with
  | ok x => exact .ok x.2 rfl
  | error e => exact .error e

theorem matches_pure {a : α} {b : β} (related : R a b) :
    Matches R (pure a : Reader ε o α) (pure b) :=
  fun _ index => .ok index related

theorem matches_throw (e : ε) : Matches R (throw e : Reader ε o α) (throw e) :=
  fun _ _ => .error e

theorem Matches.mono {R' : α → β → Prop} {r : Reader ε o α} {r' : Reader ε o β}
    (first : Matches R r r') (weaker : ∀ a b, R a b → R' a b) : Matches R' r r' := by
  intro buffer index
  have ends := first buffer index
  generalize r buffer index = x, r' buffer index = y at ends
  cases ends with
  | ok index' related => exact .ok index' (weaker _ _ related)
  | error e => exact .error e

theorem Ends.bind {r : Reader ε o α} {r' : Reader ε o β} {f : α → Reader ε o γ}
    {g : β → Reader ε o δ} {buffer : List o} {index : Nat}
    (first : Ends R (r buffer index) (r' buffer index))
    (second : ∀ a b, R a b → Matches S (f a) (g b)) :
    Ends S ((r >>= f) buffer index) ((r' >>= g) buffer index) := by
  change Ends S (r buffer index >>= fun x => f x.1 buffer x.2)
    (r' buffer index >>= fun x => g x.1 buffer x.2)
  generalize r buffer index = x, r' buffer index = y at first
  cases first with
  | ok index' related => exact second _ _ related buffer index'
  | error e => exact .error e

/-- A value that is made of what the first returns. -/
theorem Ends.map {r : Reader ε o α} {x : Except ε (β × Nat)} {T : γ → β → Prop}
    {buffer : List o} {index : Nat} (first : Ends R (r buffer index) x) {f : α → γ}
    (carries : ∀ a b, R a b → T (f a) b) :
    Ends T ((do return f (← r) : Reader ε o γ) buffer index) x := by
  change Ends T (r buffer index >>= fun x => .ok (f x.1, x.2)) x
  generalize r buffer index = y at first
  cases first with
  | ok index' related => exact .ok index' (carries _ _ related)
  | error e => exact .error e

theorem Matches.bind {r : Reader ε o α} {r' : Reader ε o β} {f : α → Reader ε o γ}
    {g : β → Reader ε o δ} (first : Matches R r r')
    (second : ∀ a b, R a b → Matches S (f a) (g b)) : Matches S (r >>= f) (r' >>= g) :=
  fun buffer index => (first buffer index).bind second

theorem Matches.map {r : Reader ε o α} {r' : Reader ε o β} {T : γ → β → Prop}
    (first : Matches R r r') {f : α → γ} (carries : ∀ a b, R a b → T (f a) b) :
    Matches T (do return f (← r)) r' :=
  fun buffer index => (first buffer index).map carries

/-- The same program before both. -/
theorem matches_after {r : Reader ε o α} {f : α → Reader ε o γ} {g : α → Reader ε o δ}
    (second : ∀ a, Matches S (f a) (g a)) : Matches S (r >>= f) (r >>= g) :=
  (matches_self r).bind fun a _ same => same ▸ second a

theorem separately_matches (P : Nat) {pairs : List (Reader ε o α × Reader ε o β)}
    (each : ∀ pair ∈ pairs, Matches R pair.1 pair.2) :
    Matches (List.Forall₂ R) (separately P (pairs.map Prod.fst))
      (separately P (pairs.map Prod.snd)) := by
  induction pairs with
  | nil => exact matches_pure .nil
  | cons pair rest ih =>
    have head := each pair List.mem_cons_self
    have tail := ih fun pair' inside => each pair' (List.mem_cons_of_mem _ inside)
    cases rest with
    | nil => exact head.bind fun a b related => matches_pure (.cons related .nil)
    | cons next rest =>
      exact head.bind fun a b related => matches_after fun _ =>
        tail.bind fun as bs others => matches_pure (.cons related others)

/-! ## Where a buffer may end -/

/-- A step through a buffer: octets that are skipped, or a scalar that is read at the index, which
then moves on. -/
inductive Move where
  | skips (n : Nat)
  | scalar (reads moves : Nat)

/-- The steps alone. A scalar is not begun at the end of the buffer. -/
def course (behind outside : ε) : List Move → Reader ε o Unit
  | [] => return ()
  | .skips n :: rest => do
    skip n
    course behind outside rest
  | .scalar reads moves :: rest => fun buffer index =>
    if buffer.length ≤ index then .error behind
    else if buffer.length < index + reads then .error outside
    else course behind outside rest buffer (index + moves)

theorem course_append {behind outside : ε} (l l' : List Move) :
    (course behind outside (l ++ l') : Reader ε o Unit) =
      (course behind outside l >>= fun _ => course behind outside l') := by
  induction l with
  | nil => rfl
  | cons move rest ih =>
    funext buffer index
    cases move with
    | skips n => exact congrFun (congrFun ih buffer) (index + n)
    | scalar reads moves =>
      have later := congrFun (congrFun ih buffer) (index + moves)
      change _ = ((course behind outside (.scalar reads moves :: rest) : Reader ε o Unit)
        buffer index >>= fun x => course behind outside l' buffer x.2)
      simp only [List.cons_append, course]
      split_ifs
      · rfl
      · rfl
      · exact later

/-- The scalars with their places, where the first step is made at the index. -/
def cells : List Move → Nat → List (Nat × Nat)
  | [], _ => []
  | .skips n :: rest, index => cells rest (index + n)
  | .scalar reads moves :: rest, index => (index, reads) :: cells rest (index + moves)

def span : List Move → Nat
  | [] => 0
  | .skips n :: rest => n + span rest
  | .scalar _ moves :: rest => moves + span rest

theorem cells_le {l : List Move} {index : Nat} {cell : Nat × Nat} (inside : cell ∈ cells l index) :
    index ≤ cell.1 := by
  induction l generalizing index with
  | nil => cases inside
  | cons move rest ih =>
    cases move with
    | skips n =>
      have later := ih inside
      omega
    | scalar reads moves =>
      rcases List.mem_cons.mp inside with rfl | inside
      · exact Nat.le_refl _
      · have later := ih inside
        omega

/-- How a course ends, by where the buffer ends. -/
theorem course_ends (behind outside : ε) (l : List Move) (buffer : List o) (index : Nat) :
    (course behind outside l buffer index = .ok ((), index + span l) ∧
      ∀ cell ∈ cells l index, cell.1 < buffer.length ∧ cell.1 + cell.2 ≤ buffer.length) ∨
    (course behind outside l buffer index = .error outside ∧
      ∃ cell ∈ cells l index, cell.1 < buffer.length ∧ buffer.length < cell.1 + cell.2) ∨
    (course behind outside l buffer index = .error behind ∧
      (∃ cell ∈ cells l index, buffer.length ≤ cell.1) ∧
      ∀ cell ∈ cells l index, buffer.length ≤ cell.1 ∨ cell.1 + cell.2 ≤ buffer.length) := by
  induction l generalizing index with
  | nil => exact .inl ⟨rfl, fun _ inside => by cases inside⟩
  | cons move rest ih =>
    cases move with
    | skips n =>
      have later := ih (index + n)
      rw [Nat.add_assoc] at later
      exact later
    | scalar reads moves =>
      have later := ih (index + moves)
      rw [Nat.add_assoc] at later
      simp only [course, cells, span]
      by_cases begun : buffer.length ≤ index
      · rw [if_pos begun]
        refine .inr (.inr ⟨rfl, ⟨_, List.mem_cons_self, begun⟩, fun cell inside => .inl ?_⟩)
        rcases List.mem_cons.mp inside with rfl | inside
        · exact begun
        · have after := cells_le inside
          omega
      · rw [if_neg begun]
        by_cases cut : buffer.length < index + reads
        · rw [if_pos cut]
          exact .inr (.inl ⟨rfl, _, List.mem_cons_self, by omega, cut⟩)
        · rw [if_neg cut]
          rcases later with ⟨done, all⟩ | ⟨done, cell, inside, ends⟩ |
            ⟨done, ⟨cell, inside, ends⟩, all⟩
          · refine .inl ⟨done, fun cell inside => ?_⟩
            rcases List.mem_cons.mp inside with rfl | inside
            · omega
            · exact all cell inside
          · exact .inr (.inl ⟨done, cell, List.mem_cons_of_mem _ inside, ends⟩)
          · refine .inr (.inr ⟨done, ⟨cell, List.mem_cons_of_mem _ inside, ends⟩, ?_⟩)
            intro cell inside
            rcases List.mem_cons.mp inside with rfl | inside
            · omega
            · exact all cell inside

end Reading
