import Certi.LibCERTI.ObjectModel

/-!
# Routing regions

`libCERTI/Extent.cc`, `BaseRegion.cc` and `RTIRegion.cc`, and the match of a
subscription with an update (`Subscriber::match`). A region is kept in the root
object and referred to by its handle; it records no federate.
-/
namespace Certi

abbrev Range := Nat × Nat

abbrev Extent := List Range

structure RTIRegion where
  handle : RegionHandle
  space : SpaceHandle
  extents : List Extent
  deriving DecidableEq, Repr

/-- Dimension by dimension; `getRangeLowerBound` throws when the other extent is shorter. -/
def Extent.overlaps : Extent → Extent → Except RTIException Bool
  | [], _ => .ok true
  | _ :: _, [] => .error .arrayIndexOutOfBounds
  | (lower, upper) :: self, (lower', upper') :: e =>
    if lower' > upper ∨ upper' < lower then .ok false else Extent.overlaps self e

/-- Regions of different spaces never overlap. -/
def RTIRegion.overlaps (r s : RTIRegion) : Except RTIException Bool :=
  if r.space ≠ s.space then .ok false
  else r.extents.anyM fun e => s.extents.anyM fun e' => Extent.overlaps e e'

/-- The default region matches everything. `region` is what each pointer points to. -/
def Subscriber.matches (region : RegionHandle → RTIRegion) (s : Subscriber)
    (r : Option RegionHandle) : Except RTIException Bool :=
  match s.region, r with
  | none, _ => .ok true
  | some _, none => .ok true
  | some a, some b => (region a).overlaps (region b)

end Certi
