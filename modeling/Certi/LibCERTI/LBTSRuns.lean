import Certi.Lib.Runs
import Certi.LibCERTI.LBTS

/-!
# An LBTS object call by call

`LBTS::update` with its iterators. One `do … while` serves a named federate,
whose clock is the first and the last to be visited, and the anonymous update,
which visits the table from its beginning; places of the table count from 0 and
its end is its length. A call either returns, throws, or reads a clock at the
end of the table.
-/
namespace Certi

namespace LBTS

abbrev ClockSet := List (FederateHandle × Date)

inductive Fault where
  | thrown (e : RTIException)
  | endDereferenced
  | unfinished
  deriving DecidableEq

/-- The `do … while` of `update` from `it` on, in at most so many rounds. -/
def updateLoop (date : Date) (itend : Nat) : Nat → Nat → ClockSet → Except Fault ClockSet
  | 0, _, _ => .error .unfinished
  | rounds + 1, it, clocks =>
    match clocks[it]? with
    | none => .error .endDereferenced
    | some clock =>
      let moved := clocks.set it (raise date clock)
      let next := if it ≠ itend then it + 1 else it
      if next ≠ itend then updateLoop date itend rounds next moved else .ok moved

/-- `clocks.find`: the end of the table when there is no such clock. -/
def find (l : LBTS) (h : FederateHandle) : Nat := l.clocks.findIdx fun clock => clock.1 = h

/-- What a loop leaves behind. -/
def conclude (l : LBTS) : Except Fault ClockSet → LBTS × Option Fault
  | .ok clocks => ({ l with clocks := clocks }.compute, none)
  | .error fault => (l, some fault)

/-- `update`; a round for every clock, and one for the place after them. -/
def updateInPlace (l : LBTS) (h : FederateHandle) (date : Date) : LBTS × Option Fault :=
  if h ≠ 0 then
    let it := l.find h
    if it = l.clocks.length then (l, some (.thrown .rtiInternalError))
    else l.conclude (updateLoop date it (l.clocks.length + 1) it l.clocks)
  else
    { l with anonymousUpdateReceived := true, lastAnonymousUpdate := date }.conclude
      (updateLoop date l.clocks.length (l.clocks.length + 1) 0 l.clocks)

inductive Call where
  | insert (h : FederateHandle) (date : Date)
  | update (h : FederateHandle) (date : Date)
  | remove (h : FederateHandle)
  | setFederate (h : FederateHandle)
  | compute

/-- A call that throws has done nothing before. -/
def orThrown (l : LBTS) : Except RTIException LBTS → LBTS × Option Fault
  | .ok l' => (l', none)
  | .error e => (l, some (.thrown e))

def perform (l : LBTS) : Call → LBTS × Option Fault
  | .insert h date => l.orThrown (l.insert h date)
  | .update h date => l.updateInPlace h date
  | .remove h => l.orThrown (l.remove h)
  | .setFederate h => (l.setFederate h, none)
  | .compute => (l.compute, none)

/-- An LBTS object. -/
def object : Runs.Machine LBTS Call (Option Fault) := perform

/-! ## The loop -/

/-- From the beginning every clock is visited, and the loop leaves at the end. The induction is on
the clocks that are left. -/
theorem updateLoop_all (date : Date) (left : ClockSet) :
    ∀ (visited : ClockSet) (rounds : Nat), left ≠ [] → left.length ≤ rounds →
      updateLoop date (visited ++ left).length rounds visited.length (visited ++ left) =
        .ok (visited ++ left.map (raise date)) := by
  induction left with
  | nil => exact fun _ _ filled _ => absurd rfl filled
  | cons clock rest ih =>
    intro visited rounds _ enough
    obtain ⟨fewer, rfl⟩ : ∃ fewer, rounds = fewer + 1 := ⟨rounds - 1, by simp at enough; omega⟩
    have here : (visited ++ clock :: rest)[visited.length]? = some clock := by simp
    have inside : visited.length ≠ (visited ++ clock :: rest).length := by simp
    have moved : (visited ++ clock :: rest).set visited.length (raise date clock) =
        (visited ++ [raise date clock]) ++ rest := by simp
    rw [updateLoop, here]
    simp only [moved, if_pos inside]
    have places : (visited ++ clock :: rest).length =
        ((visited ++ [raise date clock]) ++ rest).length := by simp
    cases rest with
    | nil => simp
    | cons second others =>
      have notYet : visited.length + 1 ≠ (visited ++ clock :: second :: others).length := by
        simp
      have later := ih (visited ++ [raise date clock]) fewer (by simp) (by simpa using enough)
      rw [if_pos notYet, places]
      simpa using later

/-- With its first place for the last, the loop visits that place. -/
theorem updateLoop_one {date : Date} {it : Nat} {clocks : ClockSet}
    {clock : FederateHandle × Date} (found : clocks[it]? = some clock) (rounds : Nat) :
    updateLoop date it (rounds + 1) it clocks = .ok (clocks.set it (raise date clock)) := by
  simp [updateLoop, found]

/-- The place of a handle is the only one that has it. -/
theorem set_find {date : Date} {h : FederateHandle} {clock : FederateHandle × Date}
    (clocks : ClockSet) :
    (clocks.map Prod.fst).Nodup → clocks[clocks.findIdx fun c => c.1 = h]? = some clock →
      clocks.set (clocks.findIdx fun c => c.1 = h) (raise date clock) =
        clocks.map fun c => if c.1 = h then raise date c else c := by
  induction clocks with
  | nil => exact fun _ found => by simp at found
  | cons first rest ih =>
    intro distinct found
    obtain ⟨apart, distinct⟩ := List.nodup_cons.mp distinct
    by_cases here : first.1 = h
    · rw [List.findIdx_cons] at found ⊢
      simp only [here, decide_true, cond_true] at found ⊢
      obtain rfl : first = clock := by simpa using found
      have others : rest.map (fun c => if c.1 = h then raise date c else c) = rest := by
        have same : ∀ c ∈ rest, (if c.1 = h then raise date c else c) = c := by
          intro c member
          rw [if_neg fun equal => apart (by rw [here, ← equal]; exact List.mem_map_of_mem member)]
        rw [List.map_congr_left same, List.map_id']
      rw [List.set_cons_zero, List.map_cons, if_pos here, others]
    · rw [List.findIdx_cons] at found ⊢
      simp only [here, decide_false, cond_false] at found ⊢
      rw [List.set_cons_succ, List.map_cons, if_neg here, ih distinct (by simpa using found)]

variable {l : LBTS} {h : FederateHandle} {date : Date}

theorem existsClock_find : l.existsClock h = true ↔ l.find h < l.clocks.length := by
  unfold existsClock find
  rw [List.findIdx_lt_length, List.any_eq_true]

/-- The loop does what `update` says, but for an anonymous update of an empty table. -/
theorem updateInPlace_eq (distinct : (l.clocks.map Prod.fst).Nodup)
    (filled : h = 0 → l.clocks ≠ []) : l.updateInPlace h date = l.orThrown (l.update h date) := by
  unfold updateInPlace update
  by_cases anonymous : h = 0
  · have all := updateLoop_all date l.clocks [] (l.clocks.length + 1) (filled anonymous)
      (Nat.le_succ _)
    simp only [List.nil_append, List.length_nil] at all
    simp only [anonymous, ne_eq, not_true_eq_false, if_false, if_true, all]
    rfl
  · simp only [anonymous, ne_eq, not_false_eq_true, if_true, if_false]
    by_cases present : l.existsClock h = true
    · have inside := existsClock_find.mp present
      obtain ⟨clock, found⟩ : ∃ clock, l.clocks[l.find h]? = some clock :=
        ⟨_, List.getElem?_eq_getElem inside⟩
      rw [if_neg (Nat.ne_of_lt inside), if_pos present, updateLoop_one found,
        show l.clocks.set (l.find h) (raise date clock) = _ from set_find l.clocks distinct found]
      rfl
    · have outside : l.find h = l.clocks.length := by
        have least : l.find h ≤ l.clocks.length := List.findIdx_le_length
        have most := mt existsClock_find.mpr present
        omega
      rw [if_pos outside, if_neg present]
      rfl

/-- An anonymous update of an empty table reads the clock at its end. -/
theorem updateInPlace_empty (empty : l.clocks = []) :
    (l.updateInPlace 0 date).2 = some .endDereferenced := by
  simp [updateInPlace, empty, updateLoop, conclude]

/-! ## What the calls keep -/

/-- Every federate has one clock, and the value is the least clock of the others. -/
structure Sound (l : LBTS) : Prop where
  distinct : (l.clocks.map Prod.fst).Nodup
  lower : ∀ clock ∈ l.clocks, clock.1 ≠ l.myFederateNumber → l.lbts ≤ clock.2
  attained : l.lbts = ⊤ ∨
    ∃ clock ∈ l.clocks, clock.1 ≠ l.myFederateNumber ∧ clock.2 = l.lbts

theorem compute_sound (distinct : (l.clocks.map Prod.fst).Nodup) : l.compute.Sound := by
  refine ⟨distinct, fun clock member other => leastClock_le member other, ?_⟩
  rcases leastClock_attained l.myFederateNumber ⊤ l.clocks with infinite | ⟨h, other, member⟩
  · exact .inl infinite
  · exact .inr ⟨_, member, other, rfl⟩

theorem create_sound : create.Sound where
  distinct := List.nodup_nil
  lower _ member := absurd member List.not_mem_nil
  attained := .inl rfl

/-- A sound object computes what it has. -/
theorem Sound.lower_iff (sound : l.Sound) (d : Date) : d ≤ l.lbts ↔
    ∀ clock ∈ l.clocks, clock.1 ≠ l.myFederateNumber → d ≤ clock.2 := by
  constructor
  · exact fun below clock member other => le_trans below (sound.lower clock member other)
  · intro below
    rcases sound.attained with infinite | ⟨clock, member, other, equal⟩
    · rw [infinite]
      exact le_top
    · rw [← equal]
      exact below clock member other

/-- The dates below the clocks of all federates but one. -/
def BelowOthers (l : LBTS) (owner : FederateHandle) (d : Date) : Prop :=
  ∀ clock ∈ l.clocks, clock.1 ≠ owner → d ≤ clock.2

/-- The calls that keep to the table: an anonymous update finds a clock in it, and a new owner
leaves the least clock of the others where it was. -/
def Orderly (l : LBTS) : Call → Prop
  | .update h _ => h = 0 → l.clocks ≠ []
  | .setFederate h => ∀ d, l.BelowOthers h d ↔ l.BelowOthers l.myFederateNumber d
  | _ => True

/-- What is promised of one call. -/
structure Lawful (l : LBTS) (c : Call) : Prop where
  terminates : (l.perform c).2 ≠ some .unfinished
  inside : (l.perform c).2 ≠ some .endDereferenced
  unchanged : (l.perform c).2 ≠ none → (l.perform c).1 = l
  grows : ∀ clock ∈ l.clocks, c = .remove clock.1 ∨
    ∃ later ∈ (l.perform c).1.clocks, later.1 = clock.1 ∧ clock.2 ≤ later.2
  anonymous : ∀ date, c = .update 0 date →
    (l.perform c).1.clocks = l.clocks.map fun clock => (clock.1, max clock.2 date)
  sound : (l.perform c).1.Sound

theorem raise_fst (date : Date) (clock : FederateHandle × Date) :
    (raise date clock).1 = clock.1 := by
  unfold raise
  split <;> rfl

theorem raise_place (date : Date) (clock : FederateHandle × Date) :
    raise date clock = (clock.1, max clock.2 date) := by
  unfold raise
  split
  · rename_i earlier
    rw [max_eq_left (le_of_lt earlier)]
  · rename_i later
    rw [max_eq_right (not_lt.mp later)]

/-- Nothing is lost of a table whose clocks are only raised. -/
theorem grows_map {clocks : ClockSet} {move : FederateHandle × Date → FederateHandle × Date}
    (raises : ∀ clock, (move clock).1 = clock.1 ∧ clock.2 ≤ (move clock).2) :
    ∀ clock ∈ clocks, ∃ later ∈ clocks.map move, later.1 = clock.1 ∧ clock.2 ≤ later.2 :=
  fun clock member => ⟨move clock, List.mem_map_of_mem member, raises clock⟩

theorem handles_map {clocks : ClockSet} {move : FederateHandle × Date → FederateHandle × Date}
    (raises : ∀ clock, (move clock).1 = clock.1 ∧ clock.2 ≤ (move clock).2) :
    (clocks.map move).map Prod.fst = clocks.map Prod.fst := by
  rw [List.map_map]
  exact List.map_congr_left fun clock _ => (raises clock).1

theorem raise_raises (date : Date) (clock : FederateHandle × Date) :
    (raise date clock).1 = clock.1 ∧ clock.2 ≤ (raise date clock).2 := by
  rw [raise_place]
  exact ⟨rfl, le_max_left _ _⟩

/-- A call that throws is lawful. -/
theorem lawful_of_thrown {c : Call} {e : RTIException} (sound : l.Sound)
    (result : l.perform c = (l, some (.thrown e))) (named : ∀ date, c ≠ .update 0 date) :
    Lawful l c where
  terminates := by simp [result]
  inside := by simp [result]
  unchanged _ := by rw [result]
  grows clock member := .inr ⟨clock, by rw [result]; exact member, rfl, le_refl _⟩
  anonymous date equal := absurd equal (named date)
  sound := by rw [result]; exact sound

theorem insert_lawful (sound : l.Sound) : Lawful l (.insert h date) := by
  by_cases present : l.existsClock h = true
  · exact lawful_of_thrown sound (e := .rtiInternalError)
      (by simp [perform, LBTS.insert, present, orThrown]) (by simp)
  · have result : l.perform (.insert h date) =
        (({ l with clocks := l.clocks ++ [(h, date)] } : LBTS).compute, none) := by
      simp [perform, LBTS.insert, present, orThrown]
    have absent : h ∉ l.clocks.map Prod.fst := by
      intro member
      obtain ⟨clock, belongs, rfl⟩ := List.mem_map.mp member
      exact present (List.any_eq_true.mpr ⟨clock, belongs, by simp⟩)
    refine ⟨by simp [result], by simp [result], by simp [result], fun clock member => ?_,
      by simp, ?_⟩
    · rw [result]
      exact .inr ⟨clock, List.mem_append_left _ member, rfl, le_refl _⟩
    · rw [result]
      apply compute_sound
      rw [List.map_append, List.nodup_append]
      refine ⟨sound.distinct, by simp, fun g listed k new => ?_⟩
      rw [List.mem_singleton.mp new]
      rintro rfl
      exact absent listed

theorem update_lawful (sound : l.Sound) (orderly : h = 0 → l.clocks ≠ []) :
    Lawful l (.update h date) := by
  have returns : l.perform (.update h date) = l.orThrown (l.update h date) :=
    updateInPlace_eq sound.distinct orderly
  by_cases anonymous : h = 0
  · have result : l.perform (.update h date) = (({ l with
        anonymousUpdateReceived := true
        lastAnonymousUpdate := date
        clocks := l.clocks.map (raise date) } : LBTS).compute, none) := by
      rw [returns, update, if_pos anonymous]
      rfl
    refine ⟨by simp [result], by simp [result], by simp [result], fun clock member => .inr ?_,
      fun date' equal => ?_, ?_⟩
    · rw [result]
      exact grows_map (raise_raises date) clock member
    · obtain ⟨-, rfl⟩ : h = 0 ∧ date = date' := by simpa using equal
      rw [result]
      exact List.map_congr_left fun clock _ => raise_place date clock
    · rw [result]
      apply compute_sound
      change ((l.clocks.map (raise date)).map Prod.fst).Nodup
      rw [handles_map (raise_raises date)]
      exact sound.distinct
  · have raises : ∀ clock : FederateHandle × Date,
        (if clock.1 = h then raise date clock else clock).1 = clock.1 ∧
          clock.2 ≤ (if clock.1 = h then raise date clock else clock).2 := by
      intro clock
      split
      · exact raise_raises date clock
      · exact ⟨rfl, le_refl _⟩
    have named : ∀ date', Call.update h date ≠ .update 0 date' := by simp [anonymous]
    by_cases present : l.existsClock h = true
    · have result : l.perform (.update h date) = (({ l with
          clocks := l.clocks.map (fun clock => if clock.1 = h then raise date clock else clock) } :
            LBTS).compute, none) := by
        rw [returns, update, if_neg anonymous, if_pos present]
        rfl
      refine ⟨by simp [result], by simp [result], by simp [result], fun clock member => .inr ?_,
        fun date' equal => absurd equal (named date'), ?_⟩
      · rw [result]
        exact grows_map raises clock member
      · rw [result]
        apply compute_sound
        change ((l.clocks.map _).map Prod.fst).Nodup
        rw [handles_map raises]
        exact sound.distinct
    · refine lawful_of_thrown sound (e := .rtiInternalError) ?_ named
      rw [returns, update, if_neg anonymous, if_neg present]
      rfl

theorem remove_lawful (sound : l.Sound) : Lawful l (.remove h) := by
  by_cases present : l.existsClock h = true
  · have result : l.perform (.remove h) =
        (({ l with clocks := l.clocks.filter fun clock => clock.1 ≠ h } : LBTS).compute, none) := by
      simp [perform, LBTS.remove, present, orThrown]
    refine ⟨by simp [result], by simp [result], by simp [result], fun clock member => ?_,
      by simp, ?_⟩
    · by_cases removed : clock.1 = h
      · exact .inl (by rw [removed])
      · rw [result]
        exact .inr ⟨clock, List.mem_filter.mpr ⟨member, by simpa using removed⟩, rfl, le_refl _⟩
    · rw [result]
      exact compute_sound (sound.distinct.sublist (List.filter_sublist.map _))
  · exact lawful_of_thrown sound (e := .rtiInternalError)
      (by simp [perform, LBTS.remove, present, orThrown]) (by simp)

/-- The value kept is right for a new owner when the same dates are below the others. -/
theorem setFederate_sound_iff (sound : l.Sound) :
    (l.setFederate h).Sound ↔ ∀ d, l.BelowOthers h d ↔ l.BelowOthers l.myFederateNumber d := by
  constructor
  · intro still d
    exact (still.lower_iff d).symm.trans (sound.lower_iff d)
  · intro same
    have computed : (l.setFederate h).compute.Sound := compute_sound sound.distinct
    have below : l.BelowOthers h (l.setFederate h).compute.lbts :=
      (computed.lower_iff _).mp (le_refl _)
    have above : l.BelowOthers h l.lbts := (same _).mpr ((sound.lower_iff _).mp (le_refl _))
    have equal : (l.setFederate h).compute.lbts = l.lbts :=
      le_antisymm ((sound.lower_iff _).mpr ((same _).mp below)) ((computed.lower_iff _).mpr above)
    have unchanged : (l.setFederate h).compute = l.setFederate h := by
      change { l.setFederate h with lbts := (l.setFederate h).compute.lbts } = l.setFederate h
      rw [equal]
      rfl
    rwa [unchanged] at computed

theorem setFederate_lawful (sound : l.Sound) (orderly : Orderly l (.setFederate h)) :
    Lawful l (.setFederate h) where
  terminates := nofun
  inside := nofun
  unchanged := fun thrown => absurd rfl thrown
  grows clock member := .inr ⟨clock, member, rfl, le_refl _⟩
  anonymous := nofun
  sound := (setFederate_sound_iff sound).mpr orderly

theorem compute_lawful (sound : l.Sound) : Lawful l .compute where
  terminates := nofun
  inside := nofun
  unchanged := fun thrown => absurd rfl thrown
  grows clock member := .inr ⟨clock, member, rfl, le_refl _⟩
  anonymous := nofun
  sound := compute_sound sound.distinct

/-- On a sound object exactly the orderly calls are lawful. -/
theorem lawful_iff (sound : l.Sound) (c : Call) : Lawful l c ↔ Orderly l c := by
  constructor
  · intro lawful
    cases c with
    | update h date =>
      rintro rfl empty
      exact lawful.inside (updateInPlace_empty empty)
    | setFederate h => exact (setFederate_sound_iff sound).mp lawful.sound
    | insert h date => trivial
    | remove h => trivial
    | compute => trivial
  · intro orderly
    cases c with
    | insert h date => exact insert_lawful sound
    | update h date => exact update_lawful sound orderly
    | remove h => exact remove_lawful sound
    | setFederate h => exact setFederate_lawful sound orderly
    | compute => exact compute_lawful sound

end LBTS

end Certi
