import Certi.RTIG.RegionRuns

/-!
# Overlapping regions over whole runs

`replaceExtents` compares the number of extents and nothing else. Where every
extent has the dimensions of the space, the overlap of two live regions is
defined and does not depend on their order; where no range is inverted as
well, it is that some extents have a point in common in every dimension.
-/
namespace Certi

open Keyed Federation Ownership Runs

/-! ## What an overlap should be -/

/-- What `Extent::overlaps` tests in one dimension. -/
def Range.Crosses (r s : Range) : Prop := r.1 ≤ s.2 ∧ s.1 ≤ r.2

/-- Both ranges have a point in common. -/
def Range.Intersects (r s : Range) : Prop := ∃ x, (r.1 ≤ x ∧ x ≤ r.2) ∧ s.1 ≤ x ∧ x ≤ s.2

/-- In each of so many dimensions. -/
def Extent.EveryDimension (meets : Range → Range → Prop) (dimensions : Nat) (e e' : Extent) :
    Prop :=
  ∀ d < dimensions, ∃ r s, e[d]? = some r ∧ e'[d]? = some s ∧ meets r s

namespace RootObject

/-- The test of two live regions has an answer, the same one both ways, and the right one. -/
structure Overlapping (meets : Range → Range → Prop) (root : RootObject) (r s : RTIRegion)
    (answer : Bool) : Prop where
  computed : r.overlaps s = .ok answer
  symmetric : s.overlaps r = .ok answer
  otherSpace : r.space ≠ s.space → answer = false
  sameSpace : r.space = s.space → ∃ dimensions, root.spaces[r.space - 1]? = some dimensions ∧
    (answer = true ↔ ∃ e ∈ r.extents, ∃ e' ∈ s.extents,
      e.EveryDimension meets dimensions e')

def OverlapsSound (meets : Range → Range → Prop) (root : RootObject) : Prop :=
  ∀ r ∈ root.regions, ∀ s ∈ root.regions, ∃ answer, root.Overlapping meets r s answer

/-- Extents of a region of that space. -/
def Shaped (p : Extent → Prop) (root : RootObject) (space : SpaceHandle)
    (extents : List Extent) : Prop :=
  ∃ dimensions, root.spaces[space - 1]? = some dimensions ∧
    ∀ e ∈ extents, e.length = dimensions ∧ p e

/-- Every live region has the dimensions of its space. -/
def RegionsShaped (p : Extent → Prop) (root : RootObject) : Prop :=
  ∀ r ∈ root.regions, root.Shaped p r.space r.extents

end RootObject

/-- No range is inverted. -/
def Extent.Ordered (e : Extent) : Prop := ∀ r ∈ e, r.1 ≤ r.2

namespace Federation

/-- A modification that the RTIG performs gives the region extents with the dimensions of its
space. -/
def ModifiesWithin (p : Extent → Prop) (f : Federation) : RegionEvent → Prop
  | .modifyRegion fed region extents => f.crashed = false → f.check fed = true →
      ∀ r, f.root.region? region = some r → extents.length = r.extents.length →
        f.root.Shaped p r.space extents
  | _ => True

end Federation

/-! ## One pair of extents -/

theorem Range.crosses_iff {r s : Range} (ordered : r.1 ≤ r.2) (ordered' : s.1 ≤ s.2) :
    r.Crosses s ↔ r.Intersects s := by
  constructor
  · intro crosses
    have left : r.1 ≤ s.2 := crosses.1
    have right : s.1 ≤ r.2 := crosses.2
    refine ⟨max r.1 s.1, ⟨?_, ?_⟩, ?_, ?_⟩ <;> omega
  · rintro ⟨x, within, within'⟩
    exact ⟨within.1.trans within'.2, within'.1.trans within.2⟩

theorem Range.Crosses.symm {r s : Range} (crosses : r.Crosses s) : s.Crosses r :=
  ⟨crosses.2, crosses.1⟩

theorem Extent.everyDimension_cons {meets : Range → Range → Prop} {r s : Range}
    {e e' : Extent} {dimensions : Nat} :
    Extent.EveryDimension meets (dimensions + 1) (r :: e) (s :: e') ↔
      meets r s ∧ Extent.EveryDimension meets dimensions e e' := by
  constructor
  · intro every
    refine ⟨?_, fun d below => ?_⟩
    · obtain ⟨r', s', first, first', meet⟩ := every 0 (Nat.zero_lt_succ dimensions)
      cases first
      cases first'
      exact meet
    · exact every (d + 1) (Nat.succ_lt_succ below)
  · rintro ⟨meet, every⟩ d below
    cases d with
    | zero => exact ⟨r, s, rfl, rfl, meet⟩
    | succ d => exact every d (Nat.lt_of_succ_lt_succ below)

/-- The loop over the dimensions ends with an answer where both extents are equally long. -/
theorem Extent.overlaps_answers (dimensions : Nat) : ∀ e e' : Extent, e.length = dimensions →
    e'.length = dimensions → ∃ answer, e.overlaps e' = .ok answer ∧
      (answer = true ↔ e.EveryDimension Range.Crosses dimensions e') := by
  induction dimensions with
  | zero =>
    intro e e' empty empty'
    cases List.length_eq_zero_iff.mp empty
    exact ⟨true, rfl, iff_of_true rfl fun d below => absurd below (Nat.not_lt_zero d)⟩
  | succ dimensions ih =>
    intro e e' length length'
    obtain ⟨r, rest, rfl⟩ := List.exists_cons_of_length_eq_add_one length
    obtain ⟨s, rest', rfl⟩ := List.exists_cons_of_length_eq_add_one length'
    obtain ⟨answer, computed, meaning⟩ := ih rest rest' (by simpa using length)
      (by simpa using length')
    rw [Extent.everyDimension_cons, ← meaning]
    by_cases apart : s.1 > r.2 ∨ s.2 < r.1
    · refine ⟨false, if_pos apart, iff_of_false Bool.false_ne_true ?_⟩
      rintro ⟨crosses, _⟩
      have left : r.1 ≤ s.2 := crosses.1
      have right : s.1 ≤ r.2 := crosses.2
      omega
    · have crosses : r.Crosses s := by
        constructor <;> omega
      exact ⟨answer, (if_neg apart).trans computed, (and_iff_right crosses).symm⟩

theorem Extent.EveryDimension.mono {meets meets' : Range → Range → Prop} {dimensions : Nat}
    {e e' : Extent} (every : e.EveryDimension meets dimensions e')
    (weaker : ∀ r ∈ e, ∀ s ∈ e', meets r s → meets' r s) :
    e.EveryDimension meets' dimensions e' := by
  intro d below
  obtain ⟨r, s, found, found', meet⟩ := every d below
  exact ⟨r, s, found, found',
    weaker r (List.mem_of_getElem? found) s (List.mem_of_getElem? found') meet⟩

theorem Extent.EveryDimension.symm {meets meets' : Range → Range → Prop} {dimensions : Nat}
    {e e' : Extent} (every : e.EveryDimension meets dimensions e')
    (swapped : ∀ r s, meets r s → meets' s r) : e'.EveryDimension meets' dimensions e := by
  intro d below
  obtain ⟨r, s, found, found', meet⟩ := every d below
  exact ⟨s, r, found', found, swapped r s meet⟩

/-! ## Two regions -/

/-- A search whose tests all have answers. -/
theorem anyM_answers {α ε : Type} {test : α → Except ε Bool} {p : α → Prop} {l : List α}
    (answers : ∀ a ∈ l, ∃ answer, test a = .ok answer ∧ (answer = true ↔ p a)) :
    ∃ answer, l.anyM test = .ok answer ∧ (answer = true ↔ ∃ a ∈ l, p a) := by
  induction l with
  | nil => exact ⟨false, rfl, by simp⟩
  | cons a l ih =>
    obtain ⟨first, tested, meaning⟩ := answers a List.mem_cons_self
    obtain ⟨rest, computed, others⟩ := ih fun b member => answers b (List.mem_cons_of_mem a member)
    rw [List.anyM_cons, tested]
    cases first with
    | true => exact ⟨true, rfl, iff_of_true rfl ⟨a, List.mem_cons_self, meaning.mp rfl⟩⟩
    | false =>
      refine ⟨rest, computed, others.trans ?_⟩
      have not : ¬ p a := fun holds => Bool.false_ne_true (meaning.mpr holds)
      simp [not]

theorem RTIRegion.overlaps_answers {r s : RTIRegion} {dimensions : Nat}
    (same : r.space = s.space) (shaped : ∀ e ∈ r.extents, e.length = dimensions)
    (shaped' : ∀ e ∈ s.extents, e.length = dimensions) :
    ∃ answer, r.overlaps s = .ok answer ∧ (answer = true ↔
      ∃ e ∈ r.extents, ∃ e' ∈ s.extents, e.EveryDimension Range.Crosses dimensions e') := by
  rw [RTIRegion.overlaps, if_neg (not_not_intro same)]
  refine anyM_answers fun e member => anyM_answers fun e' member' => ?_
  exact Extent.overlaps_answers dimensions e e' (shaped e member) (shaped' e' member')

namespace RootObject

variable {root root' : RootObject} {p : Extent → Prop} {meets : Range → Range → Prop}

/-- Well-shaped regions overlap where `meets` is what the test decides of their ranges. -/
theorem RegionsShaped.overlapsSound (shaped : root.RegionsShaped p)
    (decides : ∀ e e' : Extent, p e → p e' → ∀ r ∈ e, ∀ s ∈ e', r.Crosses s ↔ meets r s) :
    root.OverlapsSound meets := by
  intro r live s live'
  by_cases same : r.space = s.space
  · obtain ⟨dimensions, known, within⟩ := shaped r live
    obtain ⟨dimensions', known', within'⟩ := shaped s live'
    obtain rfl : dimensions = dimensions' := by
      rw [same, known'] at known
      exact (Option.some.inj known).symm
    have lengths := fun e member => (within e member).1
    have lengths' := fun e member => (within' e member).1
    obtain ⟨answer, computed, meaning⟩ := RTIRegion.overlaps_answers same lengths lengths'
    obtain ⟨answer', computed', meaning'⟩ :=
      RTIRegion.overlaps_answers same.symm lengths' lengths
    have equal : answer' = answer := by
      rw [Bool.eq_iff_iff, meaning, meaning']
      constructor
      · rintro ⟨e, member, e', member', every⟩
        exact ⟨e', member', e, member, every.symm fun _ _ => Range.Crosses.symm⟩
      · rintro ⟨e, member, e', member', every⟩
        exact ⟨e', member', e, member, every.symm fun _ _ => Range.Crosses.symm⟩
    refine ⟨answer, computed, equal ▸ computed', fun other => absurd same other,
      fun _ => ⟨dimensions, known, ?_⟩⟩
    rw [meaning]
    refine exists_congr fun e => and_congr_right fun member => exists_congr fun e' =>
      and_congr_right fun member' => ?_
    have decided := decides e e' (within e member).2 (within' e' member').2
    exact ⟨fun every => every.mono fun r inside s inside' => (decided r inside s inside').mp,
      fun every => every.mono fun r inside s inside' => (decided r inside s inside').mpr⟩
  · have elsewhere : s.space ≠ r.space := fun equal => same equal.symm
    exact ⟨false, if_pos same, if_pos elsewhere, fun _ => rfl, fun equal => absurd equal same⟩

/-! ## The invariant -/

theorem RegionsShaped.keep (shaped : root.RegionsShaped p) (kept : root.RegionsKept root') :
    root'.RegionsShaped p := by
  intro r live
  rw [kept.regions] at live
  rw [Shaped, kept.spaces]
  exact shaped r live

/-- A new region covers its space. -/
theorem RegionsShaped.create (shaped : root.RegionsShaped p)
    (whole : ∀ dimensions, p (List.replicate dimensions (0, 2 ^ 32 - 1))) (space : SpaceHandle)
    (extents : Nat) : (root.createRegion space extents).state.RegionsShaped p := by
  unfold createRegion
  split
  · exact shaped
  · split
    · exact shaped
    · rename_i dimensions known
      intro r live
      rcases List.mem_append.mp live with earlier | new
      · exact shaped r earlier
      · cases List.mem_singleton.mp new
        refine ⟨dimensions, known, fun e member => ?_⟩
        rw [(List.mem_replicate.mp member).2]
        exact ⟨List.length_replicate, whole dimensions⟩

theorem RegionsShaped.modify (shaped : root.RegionsShaped p) {region : RegionHandle}
    {extents : List Extent}
    (given : ∀ r, root.region? region = some r → extents.length = r.extents.length →
      root.Shaped p r.space extents) :
    (root.modifyRegion region extents).state.RegionsShaped p := by
  unfold modifyRegion
  split
  · exact shaped
  · rename_i r known
    split
    · exact shaped
    · rename_i equal
      intro r' live
      rcases mem_replace live with rfl | ⟨earlier, _⟩
      · exact given r (getRegion_ok known) (not_not.mp equal)
      · exact shaped r' earlier

theorem RegionsShaped.delete (shaped : root.RegionsShaped p) (region : RegionHandle) :
    (root.deleteRegion region).state.RegionsShaped p := by
  rcases deleteRegion_cases root region with ⟨unchanged, _⟩ | deleted
  · rw [unchanged]
    exact shaped
  · rw [deleted]
    exact fun r live => shaped r (mem_drop.mp live).1

end RootObject

namespace Federation

variable {f : Federation} {p : Extent → Prop}

theorem regional_shaped (shaped : f.root.RegionsShaped p)
    (whole : ∀ dimensions, p (List.replicate dimensions (0, 2 ^ 32 - 1))) {e : RegionEvent}
    (within : f.ModifiesWithin p e) : (regional f e).1.root.RegionsShaped p := by
  unfold regional
  split
  · exact shaped
  · rename_i running
    cases e with
    | event e =>
      dsimp only [performRegion]
      rcases perform_regions f e with kept | ⟨space, extents, created⟩
      · exact shaped.keep kept
      · rw [created]
        exact shaped.create whole space extents
    | modifyRegion fed region extents =>
      refine asMember_cases (p := fun outcome => outcome.state.root.RegionsShaped p) shaped
        fun member => ?_
      exact shaped.modify (within (by simpa using running) member)
    | unassociateRegion fed object region =>
      exact shaped.keep (memberOnRoot_regionsKept
        (RootObject.unassociate_regionsKept f.root object region))
    | deleteRegion fed region =>
      dsimp only [performRegion]
      rcases deleteRegion_cases f fed region with refused | ⟨_, _, deleted⟩
      · rw [refused]
        exact shaped
      · rw [deleted]
        exact shaped.delete region

end Federation

/-! ## Whole runs -/

theorem reached_shaped {p : Extent → Prop} (fom : Fom) (withMom haveXml : Bool)
    (whole : ∀ dimensions, p (List.replicate dimensions (0, 2 ^ 32 - 1)))
    {es : List RegionEvent}
    (meets : regional.Meets (ModifiesWithin p) (Federation.create fom withMom haveXml) es) :
    (regional.exec (Federation.create fom withMom haveXml) es).root.RegionsShaped p := by
  refine regional.exec_invariant (p := fun f => f.root.RegionsShaped p)
    (fun f e shaped within => regional_shaped shaped whole within) ?_ meets
  exact fun r live => nomatch live

/-- In a run that gives regions only extents with the dimensions of their spaces, the overlap of
live regions is computed and symmetric; if no range is inverted either, it is right. -/
theorem overlaps_sound (fom : Fom) (withMom haveXml : Bool) (before after : List RegionEvent) :
    (regional.Meets (ModifiesWithin fun _ => True) (Federation.create fom withMom haveXml)
        (before ++ after) →
      (regional.exec (Federation.create fom withMom haveXml) before).root.OverlapsSound
        Range.Crosses) ∧
    (regional.Meets (ModifiesWithin Extent.Ordered) (Federation.create fom withMom haveXml)
        (before ++ after) →
      (regional.exec (Federation.create fom withMom haveXml) before).root.OverlapsSound
        Range.Intersects) := by
  constructor
  · intro meets
    have shaped := reached_shaped fom withMom haveXml (fun _ => trivial)
      (regional.meets_append.mp meets).1
    exact shaped.overlapsSound fun _ _ _ _ _ _ _ _ => Iff.rfl
  · intro meets
    have whole : ∀ dimensions, Extent.Ordered (List.replicate dimensions (0, 2 ^ 32 - 1)) := by
      intro dimensions r member
      rw [(List.mem_replicate.mp member).2]
      exact Nat.zero_le _
    have shaped := reached_shaped fom withMom haveXml whole (regional.meets_append.mp meets).1
    exact shaped.overlapsSound fun e e' ordered ordered' r member s member' =>
      Range.crosses_iff (ordered r member) (ordered' s member')

/-- Two regions of the one space, the second then given these extents. -/
def movedRegions (extents : List Extent) : List RegionEvent :=
  [.event (joinAs "a"), .event (.createRegion 1 1 1), .event (.createRegion 1 1 1),
    .modifyRegion 1 2 extents]

theorem overlaps_sound_moved :
    (regional.exec (Federation.create spaceFom false true)
      (movedRegions [[(3, 5)]])).root.OverlapsSound Range.Intersects := by
  have within : ∀ (f : Federation) (region : RegionHandle), f.root.spaces = [1] →
      f.root.region? region = some ⟨2, 1, [[(0, 2 ^ 32 - 1)]]⟩ →
      f.ModifiesWithin Extent.Ordered (.modifyRegion 1 region [[(3, 5)]]) := by
    intro f region spaces known _ _ r found _
    rw [known] at found
    cases found
    refine ⟨1, by rw [spaces]; rfl, ?_⟩
    simp [Extent.Ordered]
  refine (overlaps_sound spaceFom false true (movedRegions [[(3, 5)]]) []).2 ?_
  exact ⟨trivial, trivial, trivial, within _ 2 (by decide +kernel) (by decide +kernel), trivial⟩

/-- Without a range the second region overlaps the first, and the first throws. -/
theorem overlap_throws :
    let f := regional.exec (Federation.create spaceFom false true) (movedRegions [[]])
    (∀ r ∈ f.root.region? 2, ∀ s ∈ f.root.region? 1,
      r.overlaps s = .ok true ∧ s.overlaps r = .error .arrayIndexOutOfBounds) ∧
    ¬ f.root.OverlapsSound Range.Intersects := by
  have regions : (regional.exec (Federation.create spaceFom false true)
      (movedRegions [[]])).root.regions = [⟨1, 1, [[(0, 2 ^ 32 - 1)]]⟩, ⟨2, 1, [[]]⟩] := by
    decide +kernel
  refine ⟨by decide +kernel, fun sound => ?_⟩
  rw [RootObject.OverlapsSound, regions] at sound
  obtain ⟨answer, overlapping⟩ := sound _ List.mem_cons_self _
    (List.mem_cons_of_mem _ List.mem_cons_self)
  cases overlapping.computed

end Certi
