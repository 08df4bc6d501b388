import InferUI.Plane
import InferUI.Robust
import Mathlib.Data.Real.Basic

/-!
# Segments across views

What `intersects_loose` decides, against the segment and the rectangle as sets of points of the
plane. The function orders the two coordinates of a segment independently, so what it tests is the
diagonal of the segment's bounding box that descends on the screen. A segment along the other
diagonal is tested in place of its mirror image.
-/

namespace InferUI
open Plane
variable {Prob : Type}

def View.box (node : View Prob) (hx : node.xleft < node.xright) (hy : node.ytop < node.ybottom) :
    Box ℤ :=
  ⟨node.xleft, node.xright, node.ytop, node.ybottom, hx, hy⟩

namespace LineSegment

def first (segment : LineSegment) : ℤ × ℤ := (segment.xleft, segment.ytop)

def second (segment : LineSegment) : ℤ × ℤ := (segment.xright, segment.ybottom)

/-- The other diagonal of the bounding box. -/
def mirrored (segment : LineSegment) : LineSegment :=
  ⟨segment.xleft, segment.ybottom, segment.xright, segment.ytop⟩

/-- The segment whose coordinates are ordered. -/
def ordered (segment : LineSegment) : LineSegment :=
  ⟨min segment.xleft segment.xright, min segment.ytop segment.ybottom,
    max segment.xleft segment.xright, max segment.ytop segment.ybottom⟩

/-- The product of the two differences of coordinates. -/
def slope (segment : LineSegment) : Int :=
  (segment.xright - segment.xleft) * (segment.ybottom - segment.ytop)

section
variable (segment : LineSegment) (box : Box ℤ)

theorem overlaps_ordered : box.OverlapsSegment segment.ordered.first segment.ordered.second ↔
    box.OverlapsSegment segment.first segment.second := by
  unfold Box.OverlapsSegment Overlaps
  simp only [ordered, first, second]
  omega

theorem mem_closed_ordered :
    segment.ordered.first ∈ box.closed ∧ segment.ordered.second ∈ box.closed ↔
      segment.first ∈ box.closed ∧ segment.second ∈ box.closed := by
  simp only [Box.closed, Set.mem_prod, Set.mem_Icc, ordered, first, second]
  omega

/-- The ordered segment is the segment or its mirror image, up to the direction. -/
theorem straddles_ordered : box.Straddles segment.ordered.first segment.ordered.second ↔
    if 0 ≤ segment.slope then box.Straddles segment.first segment.second
    else box.Straddles segment.mirrored.first segment.mirrored.second := by
  split
  · rename_i hslope
    obtain ⟨hx, hy⟩ | ⟨hx, hy⟩ := mul_nonneg_iff.mp hslope
    · rw [sub_nonneg] at hx hy
      simp [ordered, first, second, min_eq_left hx, max_eq_right hx, min_eq_left hy,
        max_eq_right hy]
    · rw [sub_nonpos] at hx hy
      rw [← box.straddles_comm segment.first segment.second]
      simp [ordered, first, second, min_eq_right hx, max_eq_left hx, min_eq_right hy,
        max_eq_left hy]
  · rename_i hslope
    obtain ⟨hx, hy⟩ | ⟨hx, hy⟩ := mul_neg_iff.mp (not_le.mp hslope)
    · rw [sub_pos] at hx
      rw [sub_neg] at hy
      simp [ordered, mirrored, first, second, min_eq_left hx.le, max_eq_right hx.le,
        min_eq_right hy.le, max_eq_left hy.le]
    · rw [sub_neg] at hx
      rw [sub_pos] at hy
      rw [← box.straddles_comm segment.mirrored.first segment.mirrored.second]
      simp [ordered, mirrored, first, second, min_eq_right hx.le, max_eq_left hx.le,
        min_eq_left hy.le, max_eq_right hy.le]

end

theorem sides_differ_iff (sides : List Int) :
    (!(sides.all fun side => decide (side ≥ 0)) && !(sides.all fun side => decide (side ≤ 0))) =
      true ↔ (∃ side ∈ sides, 0 < side) ∧ ∃ side ∈ sides, side < 0 := by
  simp [and_comm]

section
variable (node : View Prob) (hx : node.xleft < node.xright) (hy : node.ytop < node.ybottom)
  (p q : ℤ × ℤ)

theorem overlapsSegment_box : (node.box hx hy).OverlapsSegment p q ↔
    ¬ (p.1 ≥ node.xright ∧ q.1 ≥ node.xright) ∧ ¬ (p.1 ≤ node.xleft ∧ q.1 ≤ node.xleft) ∧
      ¬ (p.2 ≤ node.ytop ∧ q.2 ≤ node.ytop) ∧ ¬ (p.2 ≥ node.ybottom ∧ q.2 ≥ node.ybottom) := by
  simp only [Box.OverlapsSegment, Overlaps, View.box]
  omega

/-- Both ends are in the rectangle when the lower ones of their coordinates are not below its own
and the higher ones not above. -/
theorem mem_closed_box {p q : ℤ × ℤ} (hx' : p.1 ≤ q.1) (hy' : p.2 ≤ q.2) :
    p ∈ (node.box hx hy).closed ∧ q ∈ (node.box hx hy).closed ↔
      node.ytop ≤ p.2 ∧ node.ybottom ≥ q.2 ∧ node.xleft ≤ p.1 ∧ node.xright ≥ q.1 := by
  simp only [Box.closed, Set.mem_prod, Set.mem_Icc, View.box]
  omega

theorem straddles_box : (node.box hx hy).Straddles p q ↔
    (∃ s ∈ (node.box hx hy).corners.map (side p q), 0 < s) ∧
      ∃ s ∈ (node.box hx hy).corners.map (side p q), s < 0 := by
  simp only [Box.Straddles, List.mem_map, exists_exists_and_eq_and]

/-- The function, in terms of the ends of the ordered segment. -/
theorem intersectsLoose_eq (segment : LineSegment) {p q : ℤ × ℤ} (hp : segment.ordered.first = p)
    (hq : segment.ordered.second = q) :
    segment.intersectsLoose node =
      if p.1 ≥ node.xright ∧ q.1 ≥ node.xright then false
      else if p.1 ≤ node.xleft ∧ q.1 ≤ node.xleft then false
      else if p.2 ≤ node.ytop ∧ q.2 ≤ node.ytop then false
      else if p.2 ≥ node.ybottom ∧ q.2 ≥ node.ybottom then false
      else if node.ytop ≤ p.2 ∧ node.ybottom ≥ q.2 ∧ node.xleft ≤ p.1 ∧ node.xright ≥ q.1 then
        false
      else
        !(((node.box hx hy).corners.map (side p q)).all fun side => decide (side ≥ 0)) &&
          !(((node.box hx hy).corners.map (side p q)).all fun side => decide (side ≤ 0)) := by
  subst hp hq
  rfl

end

/-- What the function tests, of the ordered segment. -/
theorem intersectsLoose_iff (segment : LineSegment) (node : View Prob)
    (hx : node.xleft < node.xright) (hy : node.ytop < node.ybottom) :
    segment.intersectsLoose node = true ↔
      (node.box hx hy).OverlapsSegment segment.ordered.first segment.ordered.second ∧
      ¬ (segment.ordered.first ∈ (node.box hx hy).closed ∧
        segment.ordered.second ∈ (node.box hx hy).closed) ∧
      (node.box hx hy).Straddles segment.ordered.first segment.ordered.second := by
  have hxs : segment.ordered.first.1 ≤ segment.ordered.second.1 := min_le_max
  have hys : segment.ordered.first.2 ≤ segment.ordered.second.2 := min_le_max
  rw [intersectsLoose_eq node hx hy segment rfl rfl, overlapsSegment_box,
    mem_closed_box node hx hy hxs hys, straddles_box, ← sides_differ_iff]
  split_ifs <;> simp_all

/-- The test is exact for a segment that does not rise on the screen, and for one apart from the
rectangle or in it. For any other segment it is exact when the rectangle has corners on both sides
of the segment's line exactly when it has corners on both sides of the other diagonal. -/
theorem intersectsLoose_exact_iff (segment : LineSegment) (node : View Prob)
    (hx : node.xleft < node.xright) (hy : node.ytop < node.ybottom) :
    (segment.intersectsLoose node = true ↔
      ((node.box hx hy).cast ℝ).Crossed (castPoint ℝ segment.first)
        (castPoint ℝ segment.second)) ↔
      0 ≤ segment.slope ∨
      ¬ (node.box hx hy).OverlapsSegment segment.first segment.second ∨
      (segment.first ∈ (node.box hx hy).closed ∧ segment.second ∈ (node.box hx hy).closed) ∨
      ((node.box hx hy).Straddles segment.first segment.second ↔
        (node.box hx hy).Straddles segment.mirrored.first segment.mirrored.second) := by
  rw [Box.crossed_cast_iff, intersectsLoose_iff segment node hx hy, overlaps_ordered,
    mem_closed_ordered, straddles_ordered]
  by_cases hslope : 0 ≤ segment.slope
  · rw [if_pos hslope]
    exact iff_of_true Iff.rfl (Or.inl hslope)
  · rw [if_neg hslope]
    tauto

/-! ## A segment that rises -/

/-- From the lower left corner of a square to the upper right one. -/
def rising : LineSegment := ⟨0, 10, 10, 0⟩

/-- On the segment, near its first end. -/
def nearby : View ℚ :=
  { xleft := 1, ytop := 7, xright := 3, ybottom := 9, id := 1 }

theorem intersectsLoose_exact_iff_rising :
    (rising.intersectsLoose nearby = true ↔
      ((nearby.box (by decide) (by decide)).cast ℝ).Crossed (castPoint ℝ rising.first)
        (castPoint ℝ rising.second)) ↔
      0 ≤ rising.slope ∨
      ¬ (nearby.box (by decide) (by decide)).OverlapsSegment rising.first rising.second ∨
      (rising.first ∈ (nearby.box (by decide) (by decide)).closed ∧
        rising.second ∈ (nearby.box (by decide) (by decide)).closed) ∨
      ((nearby.box (by decide) (by decide)).Straddles rising.first rising.second ↔
        (nearby.box (by decide) (by decide)).Straddles rising.mirrored.first
          rising.mirrored.second) :=
  intersectsLoose_exact_iff rising nearby (by decide) (by decide)

/-- The segment crosses the view, and the test says that it does not. -/
theorem rising_missed : rising.intersectsLoose nearby = false ∧
    ((nearby.box (by decide) (by decide)).cast ℝ).Crossed (castPoint ℝ rising.first)
      (castPoint ℝ rising.second) := by
  refine ⟨by decide, (Box.crossed_cast_iff _).mpr ⟨?_, ?_, ?_⟩⟩
  · simp [Box.OverlapsSegment, Overlaps, View.box, nearby, rising, first, second]
  · simp [Box.closed, View.box, nearby, rising, first, second]
  · unfold Box.Straddles
    decide

end LineSegment
end InferUI
