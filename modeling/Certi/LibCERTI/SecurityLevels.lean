import Certi.Lib.Collect
import Certi.LibCERTI.ObjectModel

/-!
# Security levels of a FED

The actions of `fed.cc` for classes, as `ObjectClass.cc` and `Interaction.cc`
carry them out: a class starts with the level and the members of its
superclass, its own level is set where the text has one, and the members it
adds take the level of the class. Names are not looked at here, and a level is
what `getLevelIDWithName` returns for its name.
-/
namespace Certi.Fed

open SecurityServer

/-- Classes as the grammar has them: the security level of a class stands before its members, and
these before its subclasses. Anything else is a syntax error. -/
inductive Classes where
  | done
  | node (secLevel : Option SecurityLevelID) (members : List String) (subclasses next : Classes)
  deriving Repr

structure Member where
  handle : Nat
  name : String
  level : SecurityLevelID
  deriving DecidableEq, Repr

structure Class where
  superClass : Nat
  level : SecurityLevelID
  members : List Member
  deriving DecidableEq, Repr

/-- The classes in the order of their handles, which count from 1, and the last handle of a
parameter. -/
structure Table where
  classes : List Class
  lastMember : Nat
  deriving DecidableEq, Repr

/-- What a class without superclass starts from. -/
def Class.top : Class := ⟨0, PublicLevelID, []⟩

/-- "A class' LevelID can only be increased." -/
def setSecurityLevelId (c : Class) (level : SecurityLevelID) : Except RTIException Class :=
  if dominates level c.level then .ok { c with level := level } else .error .securityError

/-- `addSubClass`. -/
def Class.child (parent : Nat × Class) : Class :=
  { parent.2 with superClass := parent.1 }

def startClass (parent : Nat × Class) : Option SecurityLevelID → Except RTIException Class
  | none => .ok (Class.child parent)
  | some level => setSecurityLevelId (Class.child parent) level

/-- `addAttribute` numbers the attributes of each class, `addParameter` goes on counting. -/
def addMember (isParameter : Bool) (c : Class × Nat) (name : String) : Class × Nat :=
  let handle := if isParameter then c.2 + 1 else c.1.members.length + 1
  ({ c.1 with members := c.1.members ++ [⟨handle, name, c.1.level⟩] }, c.2 + 1)

/-- The classes of one level, below `parent`. -/
def read (isParameter : Bool) : Classes → Nat × Class → Table → Except RTIException Table
  | .done, _, t => .ok t
  | .node secLevel members subclasses next, parent, t => do
    let c ← startClass parent secLevel
    let (c, last) := members.foldl (addMember isParameter) (c, t.lastMember)
    let t ← read isParameter subclasses (t.classes.length + 1, c) ⟨t.classes ++ [c], last⟩
    -- `endObject`, `endInteraction`: the counter starts again after a class at the top
    read isParameter next parent (if parent.1 = 0 then { t with lastMember := 0 } else t)

/-! ## Levels along the tree -/

def Class.level? (c : Class) (h : Nat) : Option SecurityLevelID :=
  (c.members.find? fun m => m.handle = h).map Member.level

/-- A level is public or that of the class. -/
def Class.Falls (c : Class) (level : SecurityLevelID) : Prop :=
  level = PublicLevelID ∨ level = c.level

/-- The members are at the level of the class or public, and its superclass comes before it, at
such a level too, with members that it hands down. -/
structure Inherits (table : List Class) (at' : Nat) (c : Class) : Prop where
  members : ∀ m ∈ c.members, c.Falls m.level
  above : c.superClass ≠ 0 → ∃ p, table[c.superClass - 1]? = some p ∧ c.superClass ≤ at' ∧
    c.Falls p.level ∧ p.members <+: c.members

/-- The class around a level of the text: none, or one of the table. -/
def Inside (table : List Class) (parent : Nat × Class) : Prop :=
  parent = (0, Class.top) ∨
    (parent.1 ≠ 0 ∧ table[parent.1 - 1]? = some parent.2 ∧
      ∀ m ∈ parent.2.members, parent.2.Falls m.level)

/-- Every class of the table inherits from an earlier one. -/
def Levelled (table : List Class) : Prop := ∀ n c, table[n]? = some c → Inherits table n c

variable {table : List Class} {n : Nat} {c : Class}

theorem Inherits.append (inherits : Inherits table n c) (more : List Class) :
    Inherits (table ++ more) n c := by
  refine ⟨inherits.members, fun under => ?_⟩
  obtain ⟨p, found, rest⟩ := inherits.above under
  have inside := (List.getElem?_eq_some_iff.mp found).1
  exact ⟨p, (List.getElem?_append_left inside).trans found, rest⟩

theorem Inside.append {parent : Nat × Class} (inside : Inside table parent) (more : List Class) :
    Inside (table ++ more) parent := by
  refine inside.imp id ?_
  rintro ⟨under, found, kept⟩
  have bound := (List.getElem?_eq_some_iff.mp found).1
  exact ⟨under, (List.getElem?_append_left bound).trans found, kept⟩

theorem Levelled.append (levelled : Levelled table) (inherits : Inherits table table.length c) :
    Levelled (table ++ [c]) := by
  intro k d found
  by_cases inside : k < table.length
  · rw [List.getElem?_append_left inside] at found
    exact (levelled k d found).append [c]
  · rw [List.getElem?_append_right (by omega)] at found
    have last : k = table.length := by
      have bound := (List.getElem?_eq_some_iff.mp found).1
      simp only [List.length_singleton] at bound
      omega
    rw [last, Nat.sub_self] at found
    cases found
    exact last ▸ inherits.append [c]

theorem startClass_ok {parent : Nat × Class} {secLevel : Option SecurityLevelID}
    (started : startClass parent secLevel = .ok c) :
    c.superClass = parent.1 ∧ c.members = parent.2.members ∧ c.Falls parent.2.level := by
  cases secLevel with
  | none =>
    cases started
    exact ⟨rfl, rfl, .inr rfl⟩
  | some level =>
    rw [startClass, setSecurityLevelId] at started
    by_cases raised : dominates level (Class.child parent).level = true
    · rw [if_pos raised] at started
      cases started
      refine ⟨rfl, rfl, ?_⟩
      rw [dominates, Bool.or_eq_true, decide_eq_true_eq, decide_eq_true_eq] at raised
      exact raised.symm.imp id Eq.symm
    · rw [if_neg raised] at started
      cases started

/-- A class below `parent`, with members of its own. -/
theorem Inside.inherits {parent : Nat × Class} {own : List Member} (inside : Inside table parent)
    (superClass : c.superClass = parent.1) (falls : c.Falls parent.2.level)
    (members : c.members = parent.2.members ++ own) (levels : ∀ m ∈ own, m.level = c.level) :
    Inherits table table.length c := by
  constructor
  · intro m member
    rw [members] at member
    rcases List.mem_append.mp member with inherited | added
    · rcases inside with rfl | ⟨_, _, kept⟩
      · cases inherited
      · rcases kept m inherited with public' | same
        · exact .inl public'
        · rw [same]
          exact falls
    · exact .inr (levels m added)
  · intro under
    rw [superClass] at under ⊢
    rcases inside with rfl | ⟨_, found, _⟩
    · exact absurd rfl under
    · have bound := (List.getElem?_eq_some_iff.mp found).1
      refine ⟨parent.2, found, by omega, falls, ?_⟩
      rw [members]
      exact List.prefix_append _ _

theorem foldl_addMember (isParameter : Bool) (names : List String) :
    ∀ (c : Class) (free : Nat), ∃ own, (∀ m ∈ own, m.level = c.level) ∧
      (names.foldl (addMember isParameter) (c, free)).1 =
        { c with members := c.members ++ own } := by
  induction names with
  | nil => exact fun c free => ⟨[], by simp, by simp⟩
  | cons name rest ih =>
    intro c free
    obtain ⟨own, levels, result⟩ := ih (addMember isParameter (c, free) name).1 (free + 1)
    refine ⟨⟨if isParameter then free + 1 else c.members.length + 1, name, c.level⟩ :: own, ?_, ?_⟩
    · intro m member
      rcases List.mem_cons.mp member with rfl | later
      · rfl
      · exact levels m later
    · rw [List.foldl_cons]
      refine result.trans ?_
      simp [addMember]

/-- What the reader leaves is levelled, and has grown out of what it began with. -/
theorem read_levelled (isParameter : Bool) (nodes : Classes) :
    ∀ {parent : Nat × Class} {t t' : Table}, Levelled t.classes → Inside t.classes parent →
      read isParameter nodes parent t = .ok t' →
        Levelled t'.classes ∧ t.classes <+: t'.classes := by
  induction nodes with
  | done =>
    intro parent t t' levelled _ done
    cases done
    exact ⟨levelled, List.prefix_rfl⟩
  | node secLevel members subclasses next below after =>
    intro parent t t' levelled inside done
    obtain ⟨c, started, more⟩ := Collect.bind_success done
    obtain ⟨superClass, inherited, falls⟩ := startClass_ok started
    obtain ⟨own, levels, filled⟩ := foldl_addMember isParameter members c t.lastMember
    generalize members.foldl (addMember isParameter) (c, t.lastMember) = entered at filled more
    obtain ⟨entry, last⟩ := entered
    dsimp only at filled more
    have inherits : Inherits t.classes t.classes.length entry := by
      rw [filled]
      exact inside.inherits superClass falls (by rw [inherited]) levels
    -- its subclasses, then its siblings
    obtain ⟨t₁, children, siblings⟩ := Collect.bind_success more
    obtain ⟨levelled₁, grown₁⟩ := below (levelled.append inherits) (.inr
      ⟨Nat.succ_ne_zero _, by simp, inherits.members⟩) children
    have grown : t.classes <+: t₁.classes := (List.prefix_append _ _).trans grown₁
    have still : Inside t₁.classes parent := by
      obtain ⟨added, same⟩ := grown
      exact same ▸ inside.append added
    generalize goesOn : (if parent.1 = 0 then { t₁ with lastMember := 0 } else t₁) = t₂ at siblings
    have classes : t₁.classes = t₂.classes := by
      rw [← goesOn]
      split <;> rfl
    rw [classes] at levelled₁ still grown
    obtain ⟨levelled', grown'⟩ := after levelled₁ still siblings
    exact ⟨levelled', grown.trans grown'⟩

/-- A whole tree. -/
theorem read_tree {isParameter : Bool} {nodes : Classes} {t : Table}
    (done : read isParameter nodes (0, Class.top) ⟨[], 0⟩ = .ok t) : Levelled t.classes :=
  (read_levelled isParameter nodes (by intro n c found; simp at found) (.inl rfl) done).1

end Certi.Fed
