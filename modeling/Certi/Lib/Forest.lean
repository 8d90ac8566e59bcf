import Mathlib.Data.List.Perm.Subperm
import Certi.Lib.Keyed

/-!
# Forests whose nodes name their parents

A forest is a table of nodes, each with a key and the key of its parent. A
parent has a smaller key than its children, and 0 is no key, so that climbing
ends. `ancestors` climbs from a key to a root; `visit` descends from a node and
turns back at the nodes it is told to avoid. A node is visited exactly if the
climb from it meets the start of the descent before any avoided node.
-/
namespace Forest

open Keyed

variable {α : Type*} (key parent : α → Nat) (nodes : List α)

/-- At most `fuel` nodes of the climb from a key. -/
def climb : Nat → Nat → List α
  | 0, _ => []
  | fuel + 1, h =>
    match lookup key h nodes with
    | some a => a :: climb fuel (parent a)
    | none => []

/-- Keys decrease on the way, so the key bounds the climb. -/
def ancestors (h : Nat) : List α := climb key parent nodes h h

def children (a : α) : List α := nodes.filter (fun b => parent b = key a)

/-- The nodes below a node, itself included, without those that are avoided and what is below
them. -/
def visit (avoid : α → Bool) : Nat → α → List α
  | 0, _ => []
  | fuel + 1, a =>
    if avoid a then []
    else a :: (children key parent nodes a).flatMap (visit avoid fuel)

structure Ordered : Prop where
  distinct : (nodes.map key).Nodup
  below : ∀ a ∈ nodes, parent a < key a

variable {key parent nodes} {a b : α} {h : Nat}

theorem Ordered.zero (ordered : Ordered key parent nodes) : lookup key 0 nodes = none :=
  lookup_eq_none.mpr fun a member => Nat.ne_of_gt (Nat.zero_lt_of_lt (ordered.below a member))

/-! ## Climbing -/

/-- More fuel than the key changes nothing. -/
theorem climb_fuel (ordered : Ordered key parent nodes) (n : Nat) :
    ∀ m h, h ≤ n → h ≤ m → climb key parent nodes n h = climb key parent nodes m h := by
  induction n with
  | zero =>
    intro m h small _
    obtain rfl : h = 0 := Nat.le_zero.mp small
    cases m with
    | zero => rfl
    | succ m => simp [climb, ordered.zero]
  | succ n ih =>
    intro m h small big
    cases m with
    | zero =>
      obtain rfl : h = 0 := Nat.le_zero.mp big
      simp [climb, ordered.zero]
    | succ m =>
      unfold climb
      split
      · rename_i a found
        have lower := ordered.below a (lookup_mem found)
        rw [lookup_key found] at lower
        rw [ih m (parent a) (by omega) (by omega)]
      · rfl

theorem ancestors_of_lookup (ordered : Ordered key parent nodes)
    (found : lookup key h nodes = some a) :
    ancestors key parent nodes h = a :: ancestors key parent nodes (parent a) := by
  have lower := ordered.below a (lookup_mem found)
  rw [lookup_key found] at lower
  obtain ⟨n, rfl⟩ : ∃ n, h = n + 1 := ⟨h - 1, by omega⟩
  unfold ancestors
  rw [climb, found]
  dsimp only
  rw [climb_fuel ordered n (parent a) (parent a) (by omega) (Nat.le_refl _)]

theorem ancestors_of_mem (ordered : Ordered key parent nodes) (member : a ∈ nodes) :
    ancestors key parent nodes (key a) = a :: ancestors key parent nodes (parent a) :=
  ancestors_of_lookup ordered (lookup_of_nodup ordered.distinct member)

theorem ancestors_of_none (absent : lookup key h nodes = none) :
    ancestors key parent nodes h = [] := by
  unfold ancestors
  cases h with
  | zero => rfl
  | succ h => simp [climb, absent]

/-- What a node takes over from its parent it has from every ancestor. -/
theorem ancestors_inherits (ordered : Ordered key parent nodes) {q : α → Prop}
    (inherits : ∀ a ∈ nodes, ∀ p, lookup key (parent a) nodes = some p → q p → q a) (h : Nat) :
    ∀ {a : α}, lookup key h nodes = some a → ∀ b ∈ ancestors key parent nodes h, q b → q a := by
  induction h using Nat.strongRecOn with
  | ind h ih =>
    intro a found b member holds
    rw [ancestors_of_lookup ordered found] at member
    rcases List.mem_cons.mp member with rfl | above
    · exact holds
    · have inside := lookup_mem found
      have lower := ordered.below a inside
      rw [lookup_key found] at lower
      cases located : lookup key (parent a) nodes with
      | none =>
        rw [ancestors_of_none located] at above
        cases above
      | some p => exact inherits a inside p located (ih (parent a) lower located b above holds)

/-- A relation between every node and its parent holds all the way up. -/
theorem ancestors_isChain (ordered : Ordered key parent nodes) {r : α → α → Prop}
    (related : ∀ a ∈ nodes, ∀ p, lookup key (parent a) nodes = some p → r a p) (h : Nat) :
    (ancestors key parent nodes h).IsChain r := by
  induction h using Nat.strongRecOn with
  | ind h ih =>
    cases found : lookup key h nodes with
    | none =>
      rw [ancestors_of_none found]
      exact List.IsChain.nil
    | some a =>
      have inside := lookup_mem found
      have lower := ordered.below a inside
      rw [lookup_key found] at lower
      have above := ih (parent a) lower
      rw [ancestors_of_lookup ordered found]
      cases located : lookup key (parent a) nodes with
      | none =>
        rw [ancestors_of_none located]
        exact List.IsChain.singleton a
      | some p =>
        rw [ancestors_of_lookup ordered located] at above ⊢
        exact List.IsChain.cons_cons (related a inside p located) above

/-- A climb that is not empty begins at the node of its key. -/
theorem ancestors_cons (ordered : Ordered key parent nodes) {rest : List α}
    (climbed : ancestors key parent nodes h = a :: rest) :
    lookup key h nodes = some a ∧ rest = ancestors key parent nodes (parent a) := by
  cases found : lookup key h nodes with
  | none =>
    rw [ancestors_of_none found] at climbed
    cases climbed
  | some b =>
    rw [ancestors_of_lookup ordered found] at climbed
    cases climbed
    exact ⟨rfl, rfl⟩

/-- What comes after a node of a climb is the climb from its parent. -/
theorem ancestors_append (ordered : Ordered key parent nodes) (before : List α) :
    ∀ {h : Nat} {rest : List α}, ancestors key parent nodes h = before ++ a :: rest →
      a ∈ nodes ∧ rest = ancestors key parent nodes (parent a) := by
  induction before with
  | nil =>
    intro h rest climbed
    obtain ⟨found, tail⟩ := ancestors_cons ordered climbed
    exact ⟨lookup_mem found, tail⟩
  | cons b before ih =>
    intro h rest climbed
    obtain ⟨_, tail⟩ := ancestors_cons ordered climbed
    exact ih tail.symm

theorem ancestors_mem (ordered : Ordered key parent nodes)
    (member : a ∈ ancestors key parent nodes h) : a ∈ nodes := by
  obtain ⟨before, rest, climbed⟩ := List.append_of_mem member
  exact (ancestors_append ordered before climbed).1

/-- Keys decrease along a climb. -/
theorem ancestors_decrease (ordered : Ordered key parent nodes) (h : Nat) :
    (∀ a ∈ ancestors key parent nodes h, key a ≤ h) ∧
      (ancestors key parent nodes h).Pairwise (fun a b => key b < key a) := by
  induction h using Nat.strongRecOn with
  | ind h ih =>
    cases found : lookup key h nodes with
    | none =>
      rw [ancestors_of_none found]
      simp
    | some a =>
      have same := lookup_key found
      have lower := ordered.below a (lookup_mem found)
      obtain ⟨bounds, decreasing⟩ := ih (parent a) (by omega)
      rw [ancestors_of_lookup ordered found]
      constructor
      · intro b member
        rcases List.mem_cons.mp member with rfl | later
        · omega
        · have bound := bounds b later
          omega
      · refine List.pairwise_cons.mpr ⟨fun b later => ?_, decreasing⟩
        have bound := bounds b later
        omega

/-- Of two nodes of a climb the one with the smaller key lies above the other. -/
theorem mem_ancestors_parent (ordered : Ordered key parent nodes)
    (first : a ∈ ancestors key parent nodes h) (second : b ∈ ancestors key parent nodes h)
    (smaller : key b < key a) : b ∈ ancestors key parent nodes (parent a) := by
  obtain ⟨before, rest, climbed⟩ := List.append_of_mem first
  have tail := (ancestors_append ordered before climbed).2
  have decreasing := (ancestors_decrease ordered h).2
  rw [climbed] at second decreasing
  rw [List.pairwise_append] at decreasing
  rcases List.mem_append.mp second with earlier | later
  · have greater := decreasing.2.2 b earlier a List.mem_cons_self
    omega
  · rcases List.mem_cons.mp later with rfl | beyond
    · exact absurd smaller (Nat.lt_irrefl _)
    · rw [← tail]
      exact beyond

theorem ancestors_nodup (ordered : Ordered key parent nodes) (h : Nat) :
    (ancestors key parent nodes h).Nodup := by
  refine (ancestors_decrease ordered h).2.imp fun {a b} less => ?_
  rintro rfl
  exact Nat.lt_irrefl _ less

theorem ancestors_length (ordered : Ordered key parent nodes) (h : Nat) :
    (ancestors key parent nodes h).length ≤ nodes.length :=
  (List.subperm_of_subset (ancestors_nodup ordered h)
    fun _ member => ancestors_mem ordered member).length_le

/-- Rewriting nodes in place, keys and parents kept, rewrites the climbs. -/
theorem ancestors_map {f : α → α} (keeps : ∀ a ∈ nodes, key (f a) = key a)
    (parents : ∀ a ∈ nodes, parent (f a) = parent a) (h : Nat) :
    ancestors key parent (nodes.map f) h = (ancestors key parent nodes h).map f := by
  have climbed : ∀ n h, climb key parent (nodes.map f) n h =
      (climb key parent nodes n h).map f := by
    intro n
    induction n with
    | zero => exact fun _ => rfl
    | succ n ih =>
      intro h
      unfold climb
      rw [lookup_map keeps]
      cases located : lookup key h nodes with
      | none => rfl
      | some a => simp [parents a (lookup_mem located), ih]
  exact climbed h h

theorem Ordered.map {f : α → α} (ordered : Ordered key parent nodes)
    (keeps : ∀ a ∈ nodes, key (f a) = key a) (parents : ∀ a ∈ nodes, parent (f a) = parent a) :
    Ordered key parent (nodes.map f) := by
  constructor
  · have keys : (nodes.map f).map key = nodes.map key := by
      rw [List.map_map]
      exact List.map_congr_left keeps
    rw [keys]
    exact ordered.distinct
  · intro b member
    obtain ⟨a, belongs, rfl⟩ := List.mem_map.mp member
    rw [keeps a belongs, parents a belongs]
    exact ordered.below a belongs

/-! ## Descending -/

theorem mem_children : b ∈ children key parent nodes a ↔ b ∈ nodes ∧ parent b = key a := by
  simp [children]

/-- A node is visited exactly if the climb from it meets the start, with no avoided node on
the way. -/
theorem mem_visit (ordered : Ordered key parent nodes) (avoid : α → Bool) (n : Nat) :
    ∀ a ∈ nodes, ∀ d, d ∈ visit key parent nodes avoid n a ↔
      d ∈ nodes ∧ ∃ before rest,
        ancestors key parent nodes (key d) = before ++ a :: rest ∧ before.length < n ∧
          ∀ x ∈ before ++ [a], avoid x = false := by
  induction n with
  | zero => simp [visit]
  | succ n ih =>
    intro a inForest d
    unfold visit
    constructor
    · intro visited
      split at visited
      · cases visited
      · rename_i clear
        rw [Bool.not_eq_true] at clear
        rcases List.mem_cons.mp visited with rfl | below
        · exact ⟨inForest, [], _, ancestors_of_mem ordered inForest, Nat.succ_pos n,
            by simp [clear]⟩
        · obtain ⟨b, child, deeper⟩ := List.mem_flatMap.mp below
          obtain ⟨belongs, parentOf⟩ := mem_children.mp child
          obtain ⟨known, before, rest, climbed, short, avoided⟩ := (ih b belongs d).mp deeper
          -- after the child the climb comes to its parent, which is where the descent began
          obtain ⟨_, tail⟩ := ancestors_append ordered before climbed
          rw [parentOf, ancestors_of_mem ordered inForest] at tail
          refine ⟨known, before ++ [b], ancestors key parent nodes (parent a), ?_,
            by simpa using short, ?_⟩
          · rw [climbed, tail, List.append_assoc]
            rfl
          · intro x member
            rcases List.mem_append.mp member with old | new
            · exact avoided x old
            · rw [List.mem_singleton.mp new]
              exact clear
    · rintro ⟨known, before, rest, climbed, short, avoided⟩
      have clear : avoid a = false := avoided a (by simp)
      rw [if_neg (by simp [clear]), List.mem_cons, List.mem_flatMap]
      rcases List.eq_nil_or_concat before with rfl | ⟨before', b, rfl⟩
      · left
        rw [ancestors_of_mem ordered known] at climbed
        exact (List.cons.inj climbed).1
      · right
        rw [List.concat_eq_append, List.append_assoc] at climbed
        obtain ⟨belongs, tail⟩ := ancestors_append ordered before' climbed
        have parentOf : parent b = key a := by
          obtain ⟨found, _⟩ := ancestors_cons ordered tail.symm
          exact (lookup_key found).symm
        refine ⟨b, mem_children.mpr ⟨belongs, parentOf⟩, (ih b belongs d).mpr
          ⟨known, before', _, climbed, by simpa using short, fun x member => ?_⟩⟩
        refine avoided x ?_
        rw [List.concat_eq_append]
        exact List.mem_append_left _ member

/-- With enough fuel: the start is on the climb, and nothing from it down is avoided. -/
theorem mem_visit_iff (ordered : Ordered key parent nodes) (avoid : α → Bool) {n : Nat}
    (fuel : nodes.length < n) (inForest : a ∈ nodes) {d : α} :
    d ∈ visit key parent nodes avoid n a ↔
      d ∈ nodes ∧ a ∈ ancestors key parent nodes (key d) ∧
        ∀ x ∈ ancestors key parent nodes (key d), key a ≤ key x → avoid x = false := by
  rw [mem_visit ordered avoid n a inForest d]
  refine and_congr_right fun _ => ?_
  have length := ancestors_length ordered (key d)
  have decreasing := (ancestors_decrease ordered (key d)).2
  constructor
  · rintro ⟨before, rest, climbed, _, avoided⟩
    rw [climbed, List.pairwise_append] at decreasing
    refine ⟨by rw [climbed]; simp, fun x member above => ?_⟩
    rw [climbed, List.mem_append] at member
    rcases member with earlier | later
    · exact avoided x (List.mem_append_left _ earlier)
    · rcases List.mem_cons.mp later with rfl | beyond
      · exact avoided x (by simp)
      · have lower := (List.pairwise_cons.mp decreasing.2.1).1 x beyond
        omega
  · rintro ⟨onClimb, clear⟩
    obtain ⟨before, rest, climbed⟩ := List.append_of_mem onClimb
    rw [climbed, List.pairwise_append] at decreasing
    refine ⟨before, rest, climbed, ?_, fun x member => clear x ?_ ?_⟩
    · rw [climbed, List.length_append, List.length_cons] at length
      omega
    · rw [climbed]
      rcases List.mem_append.mp member with earlier | here
      · exact List.mem_append_left _ earlier
      · rw [List.mem_singleton.mp here]
        simp
    · rcases List.mem_append.mp member with earlier | here
      · exact Nat.le_of_lt (decreasing.2.2 x earlier a List.mem_cons_self)
      · exact Nat.le_of_eq (congrArg key (List.mem_singleton.mp here).symm)

theorem visit_nodup (ordered : Ordered key parent nodes) (avoid : α → Bool) (n : Nat) :
    ∀ a ∈ nodes, (visit key parent nodes avoid n a).Nodup := by
  have table : nodes.Nodup := List.Nodup.of_map key ordered.distinct
  induction n with
  | zero => exact fun _ _ => List.nodup_nil
  | succ n ih =>
    intro a inForest
    unfold visit
    split
    · exact List.nodup_nil
    · refine List.nodup_cons.mpr ⟨?_, ?_⟩
      · -- everything below has a greater key
        intro below
        obtain ⟨b, child, deeper⟩ := List.mem_flatMap.mp below
        obtain ⟨belongs, parentOf⟩ := mem_children.mp child
        obtain ⟨_, before, rest, climbed, _⟩ := (mem_visit ordered avoid n b belongs a).mp deeper
        have bounds := (ancestors_decrease ordered (key a)).1 b (by rw [climbed]; simp)
        have lower := ordered.below b belongs
        omega
      · refine List.nodup_flatMap.mpr ⟨fun b child => ih b (mem_children.mp child).1, ?_⟩
        refine (table.filter _).imp_of_mem fun {b c} childB childC different => ?_
        obtain ⟨inB, parentB⟩ := mem_children.mp childB
        obtain ⟨inC, parentC⟩ := mem_children.mp childC
        refine List.disjoint_left.mpr fun d viaB viaC => ?_
        obtain ⟨_, beforeB, restB, climbedB, _⟩ := (mem_visit ordered avoid n b inB d).mp viaB
        obtain ⟨_, beforeC, restC, climbedC, _⟩ := (mem_visit ordered avoid n c inC d).mp viaC
        obtain ⟨_, tailB⟩ := ancestors_append ordered beforeB climbedB
        obtain ⟨_, tailC⟩ := ancestors_append ordered beforeC climbedC
        rw [parentB] at tailB
        rw [parentC, ← tailB] at tailC
        -- two climbs to the same node with the same rest have the same last step
        rw [climbedB, tailC] at climbedC
        have split : beforeB ++ [b] ++ restB = beforeC ++ [c] ++ restB := by simpa using climbedC
        have last := List.append_cancel_right split
        exact different (by simpa using (List.append_inj' last rfl).2)

end Forest
