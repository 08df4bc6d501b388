import Mathlib.Analysis.Convex.Basic
import Mathlib.Order.Interval.Set.OrdConnected
import Mathlib.Tactic.FieldSimp
import Mathlib.Tactic.Linarith
import Mathlib.Tactic.LinearCombination
import Mathlib.Tactic.Positivity

/-!
# Segments and boxes in the plane

Over an ordered field: on which side of a line a point is, when a line passes through the inside
of a box whose sides are parallel to the axes, and when a segment does. A segment meets the inside
when it overlaps the box in both coordinates and corners of the box are on both sides of its line.
-/

namespace Plane

/-! ## Three intervals -/

section
variable {α : Type*} [LinearOrder α] {A B C : Set α}

/-- Three intervals that meet in pairs have a common point. -/
theorem exists_mem_of_pairs (hA : A.OrdConnected) (hB : B.OrdConnected) (hC : C.OrdConnected)
    (hAB : (A ∩ B).Nonempty) (hBC : (B ∩ C).Nonempty) (hCA : (C ∩ A).Nonempty) :
    ∃ x, x ∈ A ∧ x ∈ B ∧ x ∈ C := by
  obtain ⟨a, haA, haB⟩ := hAB
  obtain ⟨b, hbB, hbC⟩ := hBC
  obtain ⟨c, hcC, hcA⟩ := hCA
  -- the one of the three points that is between the others
  have hmiddle : a ∈ Set.uIcc b c ∨ b ∈ Set.uIcc c a ∨ c ∈ Set.uIcc a b := by
    simp only [Set.mem_uIcc]
    rcases le_total a b with hab | hab <;> rcases le_total b c with hbc | hbc <;>
      rcases le_total c a with hca | hca <;> simp_all
  obtain h | h | h := hmiddle
  · exact ⟨a, haA, haB, hC.uIcc_subset hbC hcC h⟩
  · exact ⟨b, hA.uIcc_subset hcA haA h, hbB, hbC⟩
  · exact ⟨c, hcA, hB.uIcc_subset haB hbB h, hcC⟩

end

/-- What is between two values comes inside an open interval. -/
def Overlaps {α : Type*} [LT α] (a c l r : α) : Prop := (a < r ∨ c < r) ∧ (l < a ∨ l < c)

/-! ## Sides of a line -/

section
variable {K : Type*} [CommRing K]

/-- On which side of the line through `p` and `q` a point is; zero on the line. -/
def side (p q z : K × K) : K :=
  (q.2 - p.2) * z.1 + (p.1 - q.1) * z.2 + (q.1 * p.2 - p.1 * q.2)

theorem side_comm (p q z : K × K) : side q p z = -side p q z := by
  unfold side
  ring

/-- The side of a point against one on the line. -/
theorem side_of_line {p q z : K × K} (hz : side p q z = 0) (w : K × K) :
    side p q w = (q.2 - p.2) * (w.1 - z.1) + (p.1 - q.1) * (w.2 - z.2) := by
  rw [← sub_zero (side p q w), ← hz]
  unfold side
  ring

theorem side_between (p q w c : K × K) (s : K) :
    side p q (w.1 + s * (c.1 - w.1), w.2 + s * (c.2 - w.2)) =
      side p q w + s * (side p q c - side p q w) := by
  unfold side
  ring

theorem side_along (p q : K × K) (t : K) :
    side p q (p.1 + t * (q.1 - p.1), p.2 + t * (q.2 - p.2)) = 0 := by
  unfold side
  ring

/-- A point with integer coordinates. -/
def castPoint (K : Type*) [IntCast K] (p : ℤ × ℤ) : K × K := (p.1, p.2)

theorem side_cast (p q z : ℤ × ℤ) :
    side (castPoint K p) (castPoint K q) (castPoint K z) = ((side p q z : ℤ) : K) := by
  unfold side castPoint
  push_cast
  rfl

end

/-! ## Boxes -/

structure Box (K : Type*) [LT K] where
  left : K
  right : K
  top : K
  bottom : K
  width : left < right
  height : top < bottom

namespace Box
variable {K : Type*} [LinearOrder K] (box : Box K)

def inside : Set (K × K) := Set.Ioo box.left box.right ×ˢ Set.Ioo box.top box.bottom

def closed : Set (K × K) := Set.Icc box.left box.right ×ˢ Set.Icc box.top box.bottom

def corners : List (K × K) :=
  [(box.left, box.bottom), (box.left, box.top), (box.right, box.bottom), (box.right, box.top)]

theorem mem_corners {c : K × K} : c ∈ box.corners ↔
    (c.1 = box.left ∨ c.1 = box.right) ∧ (c.2 = box.top ∨ c.2 = box.bottom) := by
  obtain ⟨x, y⟩ := c
  simp only [corners, List.mem_cons, Prod.mk.injEq, List.not_mem_nil, or_false]
  tauto

theorem corner_mem_closed {c : K × K} (hc : c ∈ box.corners) : c ∈ box.closed := by
  obtain ⟨hx, hy⟩ := box.mem_corners.mp hc
  have hw := box.width.le
  have hh := box.height.le
  constructor
  · obtain h | h := hx <;> simp [h, hw]
  · obtain h | h := hy <;> simp [h, hh]

/-- The segment overlaps the box in both coordinates. -/
def OverlapsSegment (p q : K × K) : Prop :=
  Overlaps p.1 q.1 box.left box.right ∧ Overlaps p.2 q.2 box.top box.bottom

/-- Corners are on both sides of the line. -/
def Straddles [CommRing K] (p q : K × K) : Prop :=
  (∃ c ∈ box.corners, 0 < side p q c) ∧ ∃ c ∈ box.corners, side p q c < 0

theorem straddles_comm [CommRing K] [IsStrictOrderedRing K] (p q : K × K) :
    box.Straddles q p ↔ box.Straddles p q := by
  unfold Straddles
  simp only [side_comm p q, Left.neg_pos_iff, Left.neg_neg_iff]
  exact and_comm

end Box

variable {K : Type*} [Field K] [LinearOrder K] [IsStrictOrderedRing K]

/-! ## One coordinate -/

section
variable {a c l r : K}

theorem overlaps_iff (hlr : l < r) :
    Overlaps a c l r ↔ ∃ t ∈ Set.Icc (0 : K) 1, a + t * (c - a) ∈ Set.Ioo l r := by
  constructor
  · rintro ⟨hr, hl⟩
    -- a value between both that is inside
    obtain ⟨v, hv, hvin⟩ : ∃ v ∈ segment K a c, v ∈ Set.Ioo l r := by
      rw [segment_eq_uIcc]
      rcases lt_or_ge l (min a c) with hlow | hlow
      · exact ⟨min a c, Set.left_mem_Icc.mpr min_le_max, hlow, min_lt_iff.mpr hr⟩
      · obtain ⟨v, hlv, hvr⟩ := exists_between (lt_min hlr (lt_max_iff.mpr hl))
        obtain ⟨hvr, hvmax⟩ := lt_min_iff.mp hvr
        exact ⟨v, ⟨hlow.trans hlv.le, hvmax.le⟩, hlv, hvr⟩
    rw [segment_eq_image'] at hv
    obtain ⟨t, ht, rfl⟩ := hv
    exact ⟨t, ht, hvin⟩
  · rintro ⟨t, ⟨ht0, ht1⟩, hl, hr⟩
    constructor
    · by_contra! hout
      have := mul_nonneg ht0 (sub_nonneg.mpr hout.2)
      have := mul_nonneg (sub_nonneg.mpr ht1) (sub_nonneg.mpr hout.1)
      linarith
    · by_contra! hout
      have := mul_nonneg ht0 (sub_nonneg.mpr hout.2)
      have := mul_nonneg (sub_nonneg.mpr ht1) (sub_nonneg.mpr hout.1)
      linarith

theorem ordConnected_affine (a d l r : K) :
    {t : K | a + t * d ∈ Set.Ioo l r}.OrdConnected := by
  rcases le_total 0 d with hd | hd
  · apply Set.OrdConnected.preimage_mono Set.ordConnected_Ioo
    intro s t hst
    have := mul_le_mul_of_nonneg_right hst hd
    simpa using this
  · apply Set.OrdConnected.preimage_anti Set.ordConnected_Ioo
    intro s t hst
    have := mul_le_mul_of_nonpos_right hst hd
    simpa using this

/-- On the way from the inside to the border everything but the end is inside. -/
theorem between_mem_Ioo {w s : K} (hw : w ∈ Set.Ioo l r) (hc : c ∈ Set.Icc l r) (hs0 : 0 ≤ s)
    (hs1 : s < 1) : w + s * (c - w) ∈ Set.Ioo l r := by
  have hpos : 0 < 1 - s := sub_pos.mpr hs1
  have hleft := mul_pos hpos (sub_pos.mpr hw.1)
  have hleft' := mul_nonneg hs0 (sub_nonneg.mpr hc.1)
  have hright := mul_pos hpos (sub_pos.mpr hw.2)
  have hright' := mul_nonneg hs0 (sub_nonneg.mpr hc.2)
  constructor <;> linarith

/-- The end of an interval in the direction of `a`. -/
theorem exists_end {z : K} (hz : z ∈ Set.Ioo l r) (a : K) :
    ∃ x, (x = l ∨ x = r) ∧ 0 ≤ a * (x - z) ∧ (a ≠ 0 → 0 < a * (x - z)) := by
  rcases lt_trichotomy a 0 with ha | rfl | ha
  · have := mul_pos_of_neg_of_neg ha (sub_neg.mpr hz.1)
    exact ⟨l, Or.inl rfl, this.le, fun _ => this⟩
  · exact ⟨r, Or.inr rfl, by simp, fun h => absurd rfl h⟩
  · have := mul_pos ha (sub_pos.mpr hz.2)
    exact ⟨r, Or.inr rfl, this.le, fun _ => this⟩

end

/-! ## Lines and boxes -/

namespace Box
variable (box : Box K) {p q : K × K}

/-- A direction that is not zero leads from the inside towards a corner. -/
theorem exists_corner {z : K × K} (hz : z ∈ box.inside) {a b : K} (hab : a ≠ 0 ∨ b ≠ 0) :
    ∃ c ∈ box.corners, 0 < a * (c.1 - z.1) + b * (c.2 - z.2) := by
  obtain ⟨x, hx, hx0, hxpos⟩ := exists_end hz.1 a
  obtain ⟨y, hy, hy0, hypos⟩ := exists_end hz.2 b
  refine ⟨(x, y), box.mem_corners.mpr ⟨hx, hy⟩, ?_⟩
  obtain ha | hb := hab
  · exact add_pos_of_pos_of_nonneg (hxpos ha) hy0
  · exact add_pos_of_nonneg_of_pos hx0 (hypos hb)

/-- A line that separates a point inside from one of the box passes through the inside. -/
theorem exists_on_line {w c : K × K} (hw : w ∈ box.inside) (hc : c ∈ box.closed)
    (hsides : 0 < side p q w ∧ side p q c < 0 ∨ side p q w < 0 ∧ 0 < side p q c) :
    ∃ z ∈ box.inside, side p q z = 0 := by
  have hne : side p q w - side p q c ≠ 0 := by
    rw [sub_ne_zero]
    obtain ⟨hw, hc⟩ | ⟨hw, hc⟩ := hsides
    · exact (hc.trans hw).ne'
    · exact (hw.trans hc).ne
  have hs : 0 ≤ side p q w / (side p q w - side p q c) ∧
      side p q w / (side p q w - side p q c) < 1 := by
    obtain ⟨hw, hc⟩ | ⟨hw, hc⟩ := hsides
    · have hpos : 0 < side p q w - side p q c := by linarith
      exact ⟨div_nonneg hw.le hpos.le, (div_lt_one hpos).mpr (by linarith)⟩
    · have hneg : side p q w - side p q c < 0 := by linarith
      exact ⟨div_nonneg_of_nonpos hw.le hneg.le, (div_lt_one_of_neg hneg).mpr (by linarith)⟩
  have hx := between_mem_Ioo hw.1 hc.1 hs.1 hs.2
  have hy := between_mem_Ioo hw.2 hc.2 hs.1 hs.2
  refine ⟨(_, _), ⟨hx, hy⟩, ?_⟩
  rw [side_between]
  field_simp
  ring

/-- A line passes through the inside exactly when corners are on both sides of it. -/
theorem meets_line (hne : p ≠ q) :
    (∃ z ∈ box.inside, side p q z = 0) ↔ box.Straddles p q := by
  constructor
  · rintro ⟨z, hz, hside⟩
    have hdirection : q.2 - p.2 ≠ 0 ∨ p.1 - q.1 ≠ 0 := by
      by_contra! h
      exact hne (Prod.ext (sub_eq_zero.mp h.2) (sub_eq_zero.mp h.1).symm)
    obtain ⟨c, hc, hpos⟩ := box.exists_corner hz hdirection
    obtain ⟨c', hc', hneg⟩ := box.exists_corner hz (hdirection.imp neg_ne_zero.mpr neg_ne_zero.mpr)
    refine ⟨⟨c, hc, ?_⟩, c', hc', ?_⟩
    · rw [side_of_line hside]
      exact hpos
    · rw [side_of_line hside]
      linarith
  · rintro ⟨⟨c, hc, hpos⟩, c', hc', hneg⟩
    have hcenter : ((box.left + box.right) / 2, (box.top + box.bottom) / 2) ∈ box.inside := by
      have hw := box.width
      have hh := box.height
      constructor
      · constructor <;> simp only <;> linarith
      · constructor <;> simp only <;> linarith
    rcases lt_trichotomy (side p q ((box.left + box.right) / 2, (box.top + box.bottom) / 2)) 0
      with h | h | h
    · exact box.exists_on_line hcenter (box.corner_mem_closed hc) (Or.inr ⟨h, hpos⟩)
    · exact ⟨_, hcenter, h⟩
    · exact box.exists_on_line hcenter (box.corner_mem_closed hc') (Or.inl ⟨h, hneg⟩)

/-! ## Segments and boxes -/

theorem mem_segment {z : K × K} : z ∈ segment K p q ↔
    ∃ t ∈ Set.Icc (0 : K) 1, (p.1 + t * (q.1 - p.1), p.2 + t * (q.2 - p.2)) = z := by
  rw [segment_eq_image']
  rfl

/-- The points of the line are those of the segment drawn out. -/
theorem exists_along (hne : p ≠ q) {z : K × K} (hz : side p q z = 0) :
    ∃ t : K, z = (p.1 + t * (q.1 - p.1), p.2 + t * (q.2 - p.2)) := by
  unfold side at hz
  by_cases hx : q.1 - p.1 = 0
  · have hy : q.2 - p.2 ≠ 0 := fun hy =>
      hne (Prod.ext (sub_eq_zero.mp hx).symm (sub_eq_zero.mp hy).symm)
    have hzx : (q.2 - p.2) * (z.1 - p.1) = 0 := by linear_combination hz + (z.2 - p.2) * hx
    have hzx : z.1 - p.1 = 0 := (mul_eq_zero.mp hzx).resolve_left hy
    refine ⟨(z.2 - p.2) / (q.2 - p.2), Prod.ext ?_ ?_⟩
    · simp only [hx]
      linear_combination hzx
    · simp only
      field_simp
      ring
  · refine ⟨(z.1 - p.1) / (q.1 - p.1), Prod.ext ?_ ?_⟩
    · simp only
      field_simp
      ring
    · simp only
      field_simp
      linear_combination -hz

theorem meets_segment :
    (∃ z ∈ segment K p q, z ∈ box.inside) ↔
      box.OverlapsSegment p q ∧ (p = q ∨ box.Straddles p q) := by
  constructor
  · rintro ⟨z, hz, hin⟩
    obtain ⟨t, ht, rfl⟩ := mem_segment.mp hz
    refine ⟨⟨(overlaps_iff box.width).mpr ⟨t, ht, hin.1⟩,
      (overlaps_iff box.height).mpr ⟨t, ht, hin.2⟩⟩, ?_⟩
    by_cases hpq : p = q
    · exact Or.inl hpq
    · exact Or.inr ((box.meets_line hpq).mp ⟨_, hin, side_along p q t⟩)
  · rintro ⟨⟨hx, hy⟩, h⟩
    by_cases hpq : p = q
    · subst hpq
      refine ⟨p, left_mem_segment K p p, ⟨?_, ?_⟩, ?_, ?_⟩
      · exact hx.2.elim id id
      · exact hx.1.elim id id
      · exact hy.2.elim id id
      · exact hy.1.elim id id
    · obtain ⟨z, hz, hside⟩ := (box.meets_line hpq).mpr (h.resolve_left hpq)
      obtain ⟨t, rfl⟩ := exists_along hpq hside
      obtain ⟨t₁, ht₁, hx⟩ := (overlaps_iff box.width).mp hx
      obtain ⟨t₂, ht₂, hy⟩ := (overlaps_iff box.height).mp hy
      -- the segment, its part above the box and its part beside the box, as intervals of `t`
      obtain ⟨s, hs, hsx, hsy⟩ := exists_mem_of_pairs Set.ordConnected_Icc
        (ordConnected_affine p.1 (q.1 - p.1) box.left box.right)
        (ordConnected_affine p.2 (q.2 - p.2) box.top box.bottom) ⟨t₁, ht₁, hx⟩
        ⟨t, hz.1, hz.2⟩ ⟨t₂, hy, ht₂⟩
      exact ⟨_, mem_segment.mpr ⟨s, hs, rfl⟩, hsx, hsy⟩

theorem segment_subset_closed :
    segment K p q ⊆ box.closed ↔ p ∈ box.closed ∧ q ∈ box.closed := by
  constructor
  · exact fun h => ⟨h (left_mem_segment K p q), h (right_mem_segment K p q)⟩
  · rintro ⟨hp, hq⟩
    exact ((convex_Icc _ _).prod (convex_Icc _ _)).segment_subset hp hq

/-- The segment comes inside the box and leaves it. -/
def Crossed (p q : K × K) : Prop :=
  (∃ z ∈ segment K p q, z ∈ box.inside) ∧ ¬ segment K p q ⊆ box.closed

theorem crossed_iff : box.Crossed p q ↔
    box.OverlapsSegment p q ∧ ¬ (p ∈ box.closed ∧ q ∈ box.closed) ∧ box.Straddles p q := by
  unfold Crossed
  rw [meets_segment, segment_subset_closed]
  constructor
  · rintro ⟨⟨hover, h⟩, hout⟩
    refine ⟨hover, hout, h.resolve_left ?_⟩
    rintro rfl
    -- a single point that overlaps the box is in it
    have hin : p ∈ box.closed := ⟨⟨(hover.1.2.elim id id).le, (hover.1.1.elim id id).le⟩,
      (hover.2.2.elim id id).le, (hover.2.1.elim id id).le⟩
    exact hout ⟨hin, hin⟩
  · rintro ⟨hover, hout, h⟩
    exact ⟨⟨hover, Or.inr h⟩, hout⟩

end Box

/-! ## Boxes with integer coordinates -/

namespace Box
variable (K) (box : Box ℤ)

def cast : Box K where
  left := box.left
  right := box.right
  top := box.top
  bottom := box.bottom
  width := by exact_mod_cast box.width
  height := by exact_mod_cast box.height

variable {K} {p q : ℤ × ℤ}

theorem corners_cast : (box.cast K).corners = box.corners.map (castPoint K) := rfl

theorem straddles_cast : (box.cast K).Straddles (castPoint K p) (castPoint K q) ↔
    box.Straddles p q := by
  unfold Straddles
  simp only [corners_cast, List.mem_map, exists_exists_and_eq_and, side_cast, Int.cast_pos,
    Int.cast_lt_zero]

theorem overlapsSegment_cast : (box.cast K).OverlapsSegment (castPoint K p) (castPoint K q) ↔
    box.OverlapsSegment p q := by
  simp [OverlapsSegment, Overlaps, castPoint, cast]

theorem mem_closed_cast : castPoint K p ∈ (box.cast K).closed ↔ p ∈ box.closed := by
  simp only [closed, castPoint, cast, Set.mem_prod, Set.mem_Icc, Int.cast_le]

/-- Segments between points with integer coordinates, by integer arithmetic alone. -/
theorem crossed_cast_iff : (box.cast K).Crossed (castPoint K p) (castPoint K q) ↔
    box.OverlapsSegment p q ∧ ¬ (p ∈ box.closed ∧ q ∈ box.closed) ∧ box.Straddles p q := by
  rw [crossed_iff, overlapsSegment_cast, mem_closed_cast, mem_closed_cast, straddles_cast]

end Box
end Plane
