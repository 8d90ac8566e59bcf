import Certi.LibCERTI.Types

/-!
# The lower bound on time stamps

`libCERTI/LBTS.cc`: the clock of every regulating federate and their least
value, computed anew whenever a clock is inserted, updated or removed. The own
clock of a federate does not count. `FedTime` compares two doubles up to two
units in the last place; as the dates here are exact, so is their order.
-/
namespace Certi

structure LBTS where
  myFederateNumber : FederateHandle
  clocks : List (FederateHandle × Date)
  lbts : Date
  anonymousUpdateReceived : Bool
  lastAnonymousUpdate : Date
  deriving DecidableEq

namespace LBTS

def create : LBTS := ⟨0, [], ⊤, false, 0⟩

/-- The loop of `compute`, which keeps the least clock seen so far. -/
def leastClock (self : FederateHandle) (low : Date) : List (FederateHandle × Date) → Date
  | [] => low
  | (h, clock) :: rest =>
    if h ≠ self ∧ clock < low then leastClock self clock rest else leastClock self low rest

def compute (l : LBTS) : LBTS := { l with lbts := leastClock l.myFederateNumber ⊤ l.clocks }

def existsClock (l : LBTS) (h : FederateHandle) : Bool := l.clocks.any fun c => c.1 = h

def insert (l : LBTS) (h : FederateHandle) (date : Date) : Except RTIException LBTS :=
  if l.existsClock h then .error .rtiInternalError
  else .ok { l with clocks := l.clocks ++ [(h, date)] }.compute

/-- A date that goes back is ignored. -/
def raise (date : Date) (c : FederateHandle × Date) : FederateHandle × Date :=
  if date < c.2 then c else (c.1, date)

/-- Handle 0 stands for an anonymous update, which is for every clock. -/
def update (l : LBTS) (h : FederateHandle) (date : Date) : Except RTIException LBTS :=
  if h = 0 then
    .ok { l with
      anonymousUpdateReceived := true
      lastAnonymousUpdate := date
      clocks := l.clocks.map (raise date) }.compute
  else if l.existsClock h then
    let move := fun (c : FederateHandle × Date) => if c.1 = h then raise date c else c
    .ok { l with clocks := l.clocks.map move }.compute
  else .error .rtiInternalError

def remove (l : LBTS) (h : FederateHandle) : Except RTIException LBTS :=
  if l.existsClock h then
    .ok { l with clocks := l.clocks.filter fun (c : FederateHandle × Date) => c.1 ≠ h }.compute
  else .error .rtiInternalError

def setFederate (l : LBTS) (h : FederateHandle) : LBTS := { l with myFederateNumber := h }

theorem leastClock_le_start (self : FederateHandle) (low : Date)
    (clocks : List (FederateHandle × Date)) : leastClock self low clocks ≤ low := by
  induction clocks generalizing low with
  | nil => exact le_refl low
  | cons c rest ih =>
    rw [leastClock]
    split
    · rename_i lower
      exact le_trans (ih c.2) (le_of_lt lower.2)
    · exact ih low

theorem leastClock_le {self h : FederateHandle} {low clock : Date}
    {clocks : List (FederateHandle × Date)} (member : (h, clock) ∈ clocks) (other : h ≠ self) :
    leastClock self low clocks ≤ clock := by
  induction clocks generalizing low with
  | nil => cases member
  | cons c rest ih =>
    rw [leastClock]
    cases List.mem_cons.mp member with
    | inl here =>
      subst here
      split
      · exact leastClock_le_start self clock rest
      · rename_i high
        have above : low ≤ clock := not_lt.mp fun lower => high ⟨other, lower⟩
        exact le_trans (leastClock_le_start self low rest) above
    | inr later =>
      split
      · exact ih later
      · exact ih later

/-- The bound is infinite or a clock of another federate. -/
theorem leastClock_attained (self : FederateHandle) (low : Date)
    (clocks : List (FederateHandle × Date)) :
    leastClock self low clocks = low ∨
      ∃ h, h ≠ self ∧ (h, leastClock self low clocks) ∈ clocks := by
  induction clocks generalizing low with
  | nil => exact .inl rfl
  | cons c rest ih =>
    rw [leastClock]
    split
    · rename_i lower
      cases ih c.2 with
      | inl same => exact .inr ⟨c.1, lower.1, by rw [same]; exact List.mem_cons_self⟩
      | inr found =>
        obtain ⟨h, other, member⟩ := found
        exact .inr ⟨h, other, List.mem_cons_of_mem c member⟩
    · cases ih low with
      | inl same => exact .inl same
      | inr found =>
        obtain ⟨h, other, member⟩ := found
        exact .inr ⟨h, other, List.mem_cons_of_mem c member⟩

end LBTS

end Certi
