import Mathlib
import Certi.Lib.Runs

/-!
# Logical time in 64-bit integers

`time/HLAinteger64.cpp` with the times and intervals built on it. The operators
act on the 64-bit words and never raise `IllegalTimeArithmetic`; an overflow
wraps, as the machine's words do. The final time and the smallest interval are
`numeric_limits<Integer64>::epsilon()`, which is 0 for an integer type.
-/
namespace Certi

open Runs

abbrev Integer64 := Int64

namespace numeric_limits

/-- Meant for floating point types; 0 for all others. -/
def epsilon : Integer64 := 0

def infinity : Integer64 := 0

end numeric_limits

/-- The constants are members of every object. -/
structure HLAinteger64 where
  time : Integer64
  zero : Integer64 := 0
  epsilon : Integer64 := numeric_limits.epsilon
  positiveInfinity : Integer64 := numeric_limits.infinity
  deriving DecidableEq

namespace HLAinteger64

variable (h : HLAinteger64)

def setTime (value : Integer64) : HLAinteger64 := { h with time := value }

def setInitial : HLAinteger64 := h.setTime h.zero

def isInitial : Bool := h.time == h.zero

def setFinal : HLAinteger64 := h.setTime h.epsilon

def isFinal : Bool := h.time == h.epsilon

/-- `operator=` of `HLAinteger64TimeImpl` and `HLAinteger64IntervalImpl`: the other members are
constants. -/
def assign (other : HLAinteger64) : HLAinteger64 :=
  { h with time := other.time, zero := other.zero }

end HLAinteger64

inductive TimeException where
  | illegalTimeArithmetic
  deriving DecidableEq, Repr

/-! ## Times and intervals of a program -/

/-- The objects of a program, by any names. -/
structure LogicalTimes (τ ι : Type) where
  times : τ → HLAinteger64
  intervals : ι → HLAinteger64

/-- Created by the constructors that take a value. -/
def LogicalTimes.create {τ ι : Type} (times : τ → Integer64) (intervals : ι → Integer64) :
    LogicalTimes τ ι := ⟨fun t => { time := times t }, fun d => { time := intervals d }⟩

/-- `addTo`, `subtractFrom`: `operator+=` and `operator-=` of a time, and `extend`, `shorten`
of an interval. -/
inductive TimeCall (τ ι : Type) where
  | addTo (t : τ) (d : ι)
  | subtractFrom (t : τ) (d : ι)
  | extend (d e : ι)
  | shorten (d e : ι)
  | setToDifference (d : ι) (minuend subtrahend : τ)
  | setInitial (t : τ)
  | setFinal (t : τ)
  | setZero (d : ι)
  | setEpsilon (d : ι)
  | assign (t u : τ)
  | assignInterval (d e : ι)

namespace LogicalTimes

variable {τ ι : Type} [DecidableEq τ] [DecidableEq ι] (s : LogicalTimes τ ι)

def setTime (t : τ) (h : HLAinteger64) : LogicalTimes τ ι :=
  { s with times := Function.update s.times t h }

def setInterval (d : ι) (h : HLAinteger64) : LogicalTimes τ ι :=
  { s with intervals := Function.update s.intervals d h }

/-- Every operation returns. -/
def perform : TimeCall τ ι → LogicalTimes τ ι
  | .addTo t d => s.setTime t ((s.times t).setTime ((s.times t).time + (s.intervals d).time))
  | .subtractFrom t d =>
    s.setTime t ((s.times t).setTime ((s.times t).time - (s.intervals d).time))
  | .extend d e =>
    s.setInterval d ((s.intervals d).setTime ((s.intervals d).time + (s.intervals e).time))
  | .shorten d e =>
    s.setInterval d ((s.intervals d).setTime ((s.intervals d).time - (s.intervals e).time))
  | .setToDifference d minuend subtrahend =>
    s.setInterval d ((s.intervals d).setTime
      ((s.times minuend).time - (s.times subtrahend).time))
  | .setInitial t => s.setTime t (s.times t).setInitial
  | .setFinal t => s.setTime t (s.times t).setFinal
  | .setZero d => s.setInterval d (s.intervals d).setInitial
  | .setEpsilon d => s.setInterval d (s.intervals d).setFinal
  | .assign t u => s.setTime t ((s.times t).assign (s.times u))
  | .assignInterval d e => s.setInterval d ((s.intervals d).assign (s.intervals e))

end LogicalTimes

def logicalTimes (τ ι : Type) [DecidableEq τ] [DecidableEq ι] :
    Machine (LogicalTimes τ ι) (TimeCall τ ι) (Option TimeException) :=
  fun s call => (s.perform call, none)

/-! ## The statement -/

/-- The integers of 64 bits. -/
def InRange (n : Int) : Prop := -2 ^ 63 ≤ n ∧ n < 2 ^ 63

namespace LogicalTimes

variable {τ ι : Type} [DecidableEq τ] [DecidableEq ι]

/-- The result that an operation computes, as an integer; the others compute none. -/
def result (s : LogicalTimes τ ι) : TimeCall τ ι → Option Int
  | .addTo t d => some ((s.times t).time.toInt + (s.intervals d).time.toInt)
  | .subtractFrom t d => some ((s.times t).time.toInt - (s.intervals d).time.toInt)
  | .extend d e => some ((s.intervals d).time.toInt + (s.intervals e).time.toInt)
  | .shorten d e => some ((s.intervals d).time.toInt - (s.intervals e).time.toInt)
  | .setToDifference _ minuend subtrahend =>
    some ((s.times minuend).time.toInt - (s.times subtrahend).time.toInt)
  | _ => none

/-- The value of the object that an operation writes. -/
def written (s : LogicalTimes τ ι) : TimeCall τ ι → Int
  | .addTo t _ | .subtractFrom t _ | .setInitial t | .setFinal t | .assign t _ =>
    (s.times t).time.toInt
  | .extend d _ | .shorten d _ | .setToDifference d _ _ | .setZero d | .setEpsilon d
  | .assignInterval d _ => (s.intervals d).time.toInt

/-- A result in range is stored; any other is refused, and nothing changes. -/
def Computes (s : LogicalTimes τ ι) (call : TimeCall τ ι) : Prop :=
  ∀ n ∈ s.result call,
    (InRange n → (logicalTimes τ ι s call).2 = none ∧
      (logicalTimes τ ι s call).1.written call = n) ∧
    (¬ InRange n → logicalTimes τ ι s call = (s, some .illegalTimeArithmetic))

/-- What is asked of a state, and of the operation performed next. -/
structure Sound (s : LogicalTimes τ ι) (next : Option (TimeCall τ ι)) : Prop where
  initial : ∀ t u, (s.times t).setInitial.time ≤ (s.times u).time
  final : ∀ t u, (s.times u).time ≤ (s.times t).setFinal.time
  distinct : ∀ t, ¬ ((s.times t).isInitial = true ∧ (s.times t).isFinal = true)
  distinctIntervals : ∀ d, ¬ ((s.intervals d).isInitial = true ∧ (s.intervals d).isFinal = true)
  back : ∀ t d, (((logicalTimes τ ι).exec s [.addTo t d, .subtractFrom t d]).times t).time =
    (s.times t).time
  difference : ∀ t u d e, u ≠ t → (((logicalTimes τ ι).exec s
    [.assign u t, .addTo u d, .setToDifference e u t]).intervals e).time = (s.intervals d).time
  computes : ∀ call ∈ next, s.Computes call

/-- There is no time, no interval is 0, and the next result is in range. -/
structure Harmless (s : LogicalTimes τ ι) (next : Option (TimeCall τ ι)) : Prop where
  noTime : IsEmpty τ
  noZero : ∀ d, (s.intervals d).time ≠ 0
  inRange : ∀ call ∈ next, ∀ n ∈ s.result call, InRange n

end LogicalTimes

/-! ## Proofs -/

/-- Every object has the same constants, whatever has been assigned. -/
structure LogicalTimes.Uniform {τ ι : Type} (s : LogicalTimes τ ι) : Prop where
  times : ∀ t, (s.times t).zero = 0 ∧ (s.times t).epsilon = 0
  intervals : ∀ d, (s.intervals d).zero = 0 ∧ (s.intervals d).epsilon = 0

theorem toInt_add_of_inRange {a b : Integer64} (within : InRange (a.toInt + b.toInt)) :
    (a + b).toInt = a.toInt + b.toInt := by
  rw [Int64.toInt_add]
  exact Int.bmod_eq_of_le_mul_two (by have := within.1; omega) (by have := within.2; omega)

theorem toInt_sub_of_inRange {a b : Integer64} (within : InRange (a.toInt - b.toInt)) :
    (a - b).toInt = a.toInt - b.toInt := by
  rw [Int64.toInt_sub]
  exact Int.bmod_eq_of_le_mul_two (by have := within.1; omega) (by have := within.2; omega)

namespace LogicalTimes

variable {τ ι : Type} [DecidableEq τ] [DecidableEq ι] {s : LogicalTimes τ ι}

omit [DecidableEq ι] in
@[simp] theorem setTime_times (t : τ) (h : HLAinteger64) :
    (s.setTime t h).times = Function.update s.times t h := rfl

omit [DecidableEq ι] in
@[simp] theorem setTime_intervals (t : τ) (h : HLAinteger64) :
    (s.setTime t h).intervals = s.intervals := rfl

omit [DecidableEq τ] in
@[simp] theorem setInterval_times (d : ι) (h : HLAinteger64) :
    (s.setInterval d h).times = s.times := rfl

omit [DecidableEq τ] in
@[simp] theorem setInterval_intervals (d : ι) (h : HLAinteger64) :
    (s.setInterval d h).intervals = Function.update s.intervals d h := rfl

omit [DecidableEq ι] in
theorem Uniform.setTime (uniform : s.Uniform) (t : τ) {h : HLAinteger64}
    (constants : h.zero = 0 ∧ h.epsilon = 0) : (s.setTime t h).Uniform := by
  refine ⟨fun u => ?_, uniform.intervals⟩
  rw [setTime_times]
  by_cases same : u = t
  · rw [same, Function.update_self]
    exact constants
  · rw [Function.update_of_ne same]
    exact uniform.times u

omit [DecidableEq τ] in
theorem Uniform.setInterval (uniform : s.Uniform) (d : ι) {h : HLAinteger64}
    (constants : h.zero = 0 ∧ h.epsilon = 0) : (s.setInterval d h).Uniform := by
  refine ⟨uniform.times, fun e => ?_⟩
  rw [setInterval_intervals]
  by_cases same : e = d
  · rw [same, Function.update_self]
    exact constants
  · rw [Function.update_of_ne same]
    exact uniform.intervals e

theorem Uniform.perform (uniform : s.Uniform) (call : TimeCall τ ι) :
    (s.perform call).Uniform := by
  cases call with
  | addTo t d => exact uniform.setTime t (uniform.times t)
  | subtractFrom t d => exact uniform.setTime t (uniform.times t)
  | extend d e => exact uniform.setInterval d (uniform.intervals d)
  | shorten d e => exact uniform.setInterval d (uniform.intervals d)
  | setToDifference d minuend subtrahend => exact uniform.setInterval d (uniform.intervals d)
  | setInitial t => exact uniform.setTime t (uniform.times t)
  | setFinal t => exact uniform.setTime t (uniform.times t)
  | setZero d => exact uniform.setInterval d (uniform.intervals d)
  | setEpsilon d => exact uniform.setInterval d (uniform.intervals d)
  | assign t u => exact uniform.setTime t ⟨(uniform.times u).1, (uniform.times t).2⟩
  | assignInterval d e =>
    exact uniform.setInterval d ⟨(uniform.intervals e).1, (uniform.intervals d).2⟩

theorem uniform_reached (times : τ → Integer64) (intervals : ι → Integer64)
    (calls : List (TimeCall τ ι)) :
    ((logicalTimes τ ι).exec (create times intervals) calls).Uniform :=
  (logicalTimes τ ι).exec_always (p := Uniform) (fun _ call uniform => uniform.perform call)
    ⟨fun _ => ⟨rfl, rfl⟩, fun _ => ⟨rfl, rfl⟩⟩ calls

/-- Words add and subtract exactly in both round trips, whether they wrap or not. -/
theorem add_back (s : LogicalTimes τ ι) (t : τ) (d : ι) :
    (((logicalTimes τ ι).exec s [.addTo t d, .subtractFrom t d]).times t).time =
      (s.times t).time := by
  simp [logicalTimes, perform, HLAinteger64.setTime]

theorem difference_back (s : LogicalTimes τ ι) {t u : τ} (d e : ι) (other : u ≠ t) :
    (((logicalTimes τ ι).exec s
      [.assign u t, .addTo u d, .setToDifference e u t]).intervals e).time =
        (s.intervals d).time := by
  have same : t ≠ u := fun equal => other equal.symm
  simp only [Machine.exec_cons, Machine.exec_nil, logicalTimes, perform, setTime_times,
    setTime_intervals, setInterval_intervals, Function.update_self, Function.update_of_ne same,
    HLAinteger64.setTime, HLAinteger64.assign]
  rw [Int64.add_comm]
  exact Int64.add_sub_cancel _ _

theorem computes_of_inRange {call : TimeCall τ ι}
    (within : ∀ n ∈ s.result call, InRange n) : s.Computes call := by
  intro n computed
  have inside := within n computed
  refine ⟨fun _ => ⟨rfl, ?_⟩, fun outside => absurd inside outside⟩
  cases call with
  | addTo t d =>
    cases computed
    simpa [logicalTimes, perform, written, HLAinteger64.setTime] using toInt_add_of_inRange inside
  | subtractFrom t d =>
    cases computed
    simpa [logicalTimes, perform, written, HLAinteger64.setTime] using toInt_sub_of_inRange inside
  | extend d e =>
    cases computed
    simpa [logicalTimes, perform, written, HLAinteger64.setTime] using toInt_add_of_inRange inside
  | shorten d e =>
    cases computed
    simpa [logicalTimes, perform, written, HLAinteger64.setTime] using toInt_sub_of_inRange inside
  | setToDifference d minuend subtrahend =>
    cases computed
    simpa [logicalTimes, perform, written, HLAinteger64.setTime] using toInt_sub_of_inRange inside
  | _ => cases computed

/-- Nothing is ever refused. -/
theorem inRange_of_computes {call : TimeCall τ ι} (computes : s.Computes call) :
    ∀ n ∈ s.result call, InRange n := by
  intro n computed
  by_contra outside
  have refused := (computes n computed).2 outside
  cases congrArg Prod.snd refused

theorem both_iff {h : HLAinteger64} (zero : h.zero = 0) (epsilon : h.epsilon = 0) :
    (h.isInitial = true ∧ h.isFinal = true) ↔ h.time = 0 := by
  simp [HLAinteger64.isInitial, HLAinteger64.isFinal, zero, epsilon]

/-- Between the initial and the final time there is only 0, which is both. -/
theorem Uniform.no_time (uniform : s.Uniform) {next : Option (TimeCall τ ι)}
    (sound : s.Sound next) : IsEmpty τ := by
  refine ⟨fun t => ?_⟩
  have above := sound.initial t t
  have below := sound.final t t
  have constants := uniform.times t
  rw [HLAinteger64.setInitial, HLAinteger64.setTime, constants.1] at above
  rw [HLAinteger64.setFinal, HLAinteger64.setTime, constants.2] at below
  have middle : (s.times t).time = 0 := Int64.le_antisymm below above
  exact sound.distinct t ((both_iff constants.1 constants.2).mpr middle)

theorem Uniform.sound_iff (uniform : s.Uniform) (next : Option (TimeCall τ ι)) :
    s.Sound next ↔ s.Harmless next := by
  constructor
  · intro sound
    refine ⟨uniform.no_time sound, fun d zero => ?_,
      fun call performed => inRange_of_computes (sound.computes call performed)⟩
    have constants := uniform.intervals d
    exact sound.distinctIntervals d ((both_iff constants.1 constants.2).mpr zero)
  · intro harmless
    have none := harmless.noTime
    refine ⟨fun t => none.elim t, fun t => none.elim t, fun t => none.elim t, fun d both => ?_,
      add_back s, fun t u d e => difference_back s d e, fun call performed => ?_⟩
    · have constants := uniform.intervals d
      exact harmless.noZero d ((both_iff constants.1 constants.2).mp both)
    · exact computes_of_inRange (harmless.inRange call performed)

end LogicalTimes

/-! ## Whole runs -/

/-- Wherever there is a time at all, the order fails; an operation is right exactly if its result
is in range; both round trips hold everywhere. -/
theorem integer_times_iff {τ ι : Type} [DecidableEq τ] [DecidableEq ι] (times : τ → Integer64)
    (intervals : ι → Integer64) (calls : List (TimeCall τ ι)) :
    ((∀ before after, calls = before ++ after →
      ((logicalTimes τ ι).exec (.create times intervals) before).Sound after.head?) ↔
      ∀ before after, calls = before ++ after →
        ((logicalTimes τ ι).exec (.create times intervals) before).Harmless after.head?) ∧
    ∀ before after, calls = before ++ after →
      let s := (logicalTimes τ ι).exec (.create times intervals) before
      (∀ call ∈ after.head?, s.Computes call ↔ ∀ n ∈ s.result call, InRange n) ∧
      (∀ t d, (((logicalTimes τ ι).exec s [.addTo t d, .subtractFrom t d]).times t).time =
        (s.times t).time) ∧
      (∀ t u d e, u ≠ t → (((logicalTimes τ ι).exec s
        [.assign u t, .addTo u d, .setToDifference e u t]).intervals e).time =
          (s.intervals d).time) ∧
      ∀ next, Nonempty τ → ¬ s.Sound next := by
  refine ⟨?_, fun before after _ => ⟨fun call _ => ⟨LogicalTimes.inRange_of_computes,
    LogicalTimes.computes_of_inRange⟩, LogicalTimes.add_back _,
      fun t u d e => LogicalTimes.difference_back _ d e, fun next some sound => ?_⟩⟩
  · refine forall_congr' fun before => forall_congr' fun after => imp_congr_right fun _ => ?_
    exact (LogicalTimes.uniform_reached times intervals before).sound_iff after.head?
  · have none := (LogicalTimes.uniform_reached times intervals before).no_time sound
    exact none.elim some.some

/-- The final time is below the time 5, and the largest time is followed by the smallest. -/
theorem final_below :
    let s := LogicalTimes.create (fun _ : Unit => 5) (fun _ : Unit => 2 ^ 63 - 1)
    ¬ s.Sound (some (.addTo () ())) ∧ (s.times ()).setFinal.time = 0 ∧
      ((logicalTimes Unit Unit s (.addTo () ())).1.times ()).time = -2 ^ 63 + 4 := by
  refine ⟨fun sound => ?_, by decide, by decide +kernel⟩
  exact absurd (sound.final () ()) (by decide)

end Certi
