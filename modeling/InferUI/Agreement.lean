import InferUI.Cache
import InferUI.Enumeration

/-!
# The generator and the formulas

The concrete generator of candidates and the symbolic formulas of the solver describe the same
constraints. Each candidate satisfies its formula at the concrete positions, and a formula that
holds there has a candidate, but for a view centered half a pixel off.
-/

namespace InferUI
open Store
variable {Prob K : Type}

/-! ## The pairs that are left out -/

theorem exists_sameSide (o : Orientation) (s : Side) :
    ∃ type ∈ centerTypes o, type.sides = (some s, some s) := by
  cases o <;> cases s <;> decide

/-- The pairs that the enumeration leaves out. -/
theorem skipsPair_iff {type : ConstraintType} {s e : Side} (h : type.sides = (some s, some e))
    (l r : Nat) : skipsPair type l r ↔
      (s = .end ∧ e = .start ∧ l = r) ∨ (l = 0 ∧ r = 0 ∧ s = e) := by
  cases type <;> simp only [ConstraintType.sides, Prod.mk.injEq, Option.some.injEq,
    reduceCtorEq, and_false, false_and] at h <;> obtain ⟨rfl, rfl⟩ := h <;>
    simp [skipsPair, ConstraintType.isSameSide]

/-- `IsValid` leaves out the same pairs. -/
theorem isValid_center {app : App Prob} (hroot : app.Rooted) {attr : Attribute Prob} {s e : Side}
    (h : attr.type.sides = (some s, some e)) {r : Nat} (hl : attr.tgtPrimary < app.views.length)
    (hr : r < app.views.length) (hsome : attr.tgtSecondary = some r) :
    ConstraintCache.isValid app attr = true ↔
      ¬ ((s = .end ∧ e = .start ∧ attr.tgtPrimary = r) ∨
        (attr.tgtPrimary = 0 ∧ r = 0 ∧ s = e)) := by
  have hids := hroot.idOf_inj hl hr
  rw [ConstraintCache.isValid, hsome]
  generalize attr.type = type at h
  cases type <;> simp only [ConstraintType.sides, Prod.mk.injEq, Option.some.injEq,
    reduceCtorEq, and_false, false_and] at h <;> obtain ⟨rfl, rfl⟩ := h <;>
    simp [ConstraintType.isRelationalAnchor, ConstraintType.toIndex, ConstraintType.isSameSide,
      hids] <;> tauto

/-! ## Concrete positions -/

/-- The position variables of the reference have the coordinates of its views. -/
def Concrete (app : App Prob) (o : Orientation) (v : Assignment K) : Prop :=
  ∀ p view, app.views[p]? = some view →
    v.positionStart (uniqueId p o) 0 = view.startAt o ∧
      v.positionEnd (uniqueId p o) 0 = view.endAt o

theorem Concrete.edge {app : App Prob} {o : Orientation} {v : Assignment K} (h : Concrete app o v)
    {view : View Prob} (hv : view ∈ app.views) (s : Side) :
    (findView (convertViews app o 0) view.pos).edge s v = view.edge o s := by
  have hget := App.mem_views_iff.mp hv
  have hpos := h view.pos view hget
  rw [findView_eq hget]
  cases s with
  | start => exact hpos.1
  | «end» => exact hpos.2

/-- The margins and the bias of one view. -/
structure MarginsAt (v : Assignment K) [Field K] (o : Orientation) (pos : Nat)
    (marginStart marginEnd : Int) : Prop where
  start : v.marginStart (uniqueId pos o) = marginStart
  «end» : v.marginEnd (uniqueId pos o) = marginEnd
  bias : v.bias (uniqueId pos o) = 1 / 2

section
variable [Field K]

/-- An assignment with the concrete positions of one orientation and no margins. -/
def concreteModel (app : App Prob) (o : Orientation) : Assignment K where
  positionStart u _ := (app.views[u - 1000 * o.toIndex]?).elim 0 (·.startAt o)
  positionEnd u _ := (app.views[u - 1000 * o.toIndex]?).elim 0 (·.endAt o)
  marginStart _ := 0
  marginEnd _ := 0
  anchor _ := 0
  bias _ := 1 / 2
  cost _ := 0
  satisfied _ _ := false
  select _ := false

theorem concreteModel_concrete (app : App Prob) (o : Orientation) :
    Concrete app o (concreteModel app o : Assignment K) := by
  intro p view h
  simp [concreteModel, uniqueId_sub, h]

theorem MarginsAt.of_view {app : App Prob} {o : Orientation} {v : Assignment K} {src : View Prob}
    {marginStart marginEnd : Int} (h : MarginsAt v o src.pos marginStart marginEnd)
    (hsrc : src ∈ app.views) :
    (findView (convertViews app o 0) src.pos).marginStart v = marginStart ∧
      (findView (convertViews app o 0) src.pos).marginEnd v = marginEnd ∧
      (findView (convertViews app o 0) src.pos).bias v = 1 / 2 := by
  simp only [Z3View.marginStart, Z3View.marginEnd, Z3View.bias, findView_uniqueId (App.pos_lt hsrc)]
  exact ⟨h.start, h.end, h.bias⟩

end

variable [Field K] [LinearOrder K] [FloorRing K]

/-! ## The formulas at the concrete positions -/

section
variable {app : App Prob} {o : Orientation} {v : Assignment K} {src l r : View Prob}
variable {marginStart marginEnd : Int} {type : ConstraintType} {s e : Side}

theorem concrete_start (hv : Concrete app o v) (hm : MarginsAt v o src.pos marginStart marginEnd)
    (hsrc : src ∈ app.views) (hl : l ∈ app.views) (h : type.sides = (some s, none)) :
    formula type .fixed (findView (convertViews app o 0) src.pos)
        (findView (convertViews app o 0) l.pos) none v = true ↔
      src.startAt o = l.edge o s + marginStart := by
  rw [formula_start h, decide_eq_true_eq, hv.edge hl, (hm.of_view hsrc).1]
  exact Iff.of_eq (congrArg (· = _) (hv.edge hsrc .start))

theorem concrete_end (hv : Concrete app o v) (hm : MarginsAt v o src.pos marginStart marginEnd)
    (hsrc : src ∈ app.views) (hl : l ∈ app.views) (h : type.sides = (none, some s)) :
    formula type .fixed (findView (convertViews app o 0) src.pos)
        (findView (convertViews app o 0) l.pos) none v = true ↔
      src.endAt o = l.edge o s - marginEnd := by
  rw [formula_end h, decide_eq_true_eq, hv.edge hl, (hm.of_view hsrc).2.1]
  exact Iff.of_eq (congrArg (· = _) (hv.edge hsrc .end))

theorem concrete_match (hv : Concrete app o v) (hm : MarginsAt v o src.pos marginStart marginEnd)
    (hsrc : src ∈ app.views) (hl : l ∈ app.views) (hr : r ∈ app.views)
    (h : type.sides = (some s, some e)) :
    formula type .matchConstraint (findView (convertViews app o 0) src.pos)
        (findView (convertViews app o 0) l.pos)
        (some (findView (convertViews app o 0) r.pos)) v = true ↔
      src.startAt o = l.edge o s + marginStart ∧ src.endAt o = r.edge o e - marginEnd := by
  rw [formula_match h (by simp), hv.edge hl, hv.edge hr, (hm.of_view hsrc).1, (hm.of_view hsrc).2.1]
  have hs := hv.edge hsrc .start
  have he := hv.edge hsrc .end
  simp only [Z3View.edge, View.edge] at hs he
  rw [hs, he]

variable [IsStrictOrderedRing K]

/-- With the bias at one half the rounded distance is zero for two values of the doubled one. -/
theorem round_gap_half {l r marginStart marginEnd start «end» : Int} :
    roundReal2int (gap (1 / 2 : K) l r marginStart marginEnd start «end») = 0 ↔
      let m := l + r + marginStart - marginEnd - start - «end»
      m = 0 ∨ m = -1 := by
  have hgap : gap (1 / 2 : K) l r marginStart marginEnd start «end» + 1 / 2 =
      ((l + r + marginStart - marginEnd - start - «end» + 1 : Int) : K) / 2 := by
    simp only [gap]
    push_cast
    ring
  rw [roundReal2int, hgap, Int.floor_eq_zero_iff, Set.mem_Ico]
  generalize l + r + marginStart - marginEnd - start - «end» = m
  constructor
  · rintro ⟨h0, h1⟩
    have h0 : (0 : K) ≤ ((m + 1 : Int) : K) := by linarith
    have h1 : ((m + 1 : Int) : K) < (2 : Int) := by
      push_cast at h1 ⊢
      linarith
    have := Int.cast_nonneg_iff.mp h0
    have := Int.cast_lt.mp h1
    dsimp only
    omega
  · rintro (rfl | rfl) <;> norm_num

/-- When both anchors are the same one the formula wants the view centered on it, and takes a
view that is half a pixel past it for centered. -/
theorem concrete_center_same (hv : Concrete app o v)
    (hm : MarginsAt v o src.pos marginStart marginEnd) (hsrc : src ∈ app.views)
    (hl : l ∈ app.views) (h : type.sides = (some s, some s)) (ho : type.toOrientation = o) :
    formula type .fixed (findView (convertViews app o 0) src.pos)
        (findView (convertViews app o 0) l.pos)
        (some (findView (convertViews app o 0) l.pos)) v = true ↔
      marginStart = 0 ∧ marginEnd = 0 ∧
        (doubleMargin type s s src l l = 0 ∨ doubleMargin type s s src l l = 1) := by
  have hs := hv.edge hsrc .start
  have he := hv.edge hsrc .end
  simp only [Z3View.edge, View.edge] at hs he
  rw [formula_center_same h rfl, (hm.of_view hsrc).1, (hm.of_view hsrc).2.1, (hm.of_view hsrc).2.2,
    hv.edge hl, hs, he, round_gap_half]
  simp only [doubleMargin, ho]
  omega

/-- Otherwise the margins make up the distance, and the clause for the root holds of a view that
lies inside it. -/
theorem concrete_center (hv : Concrete app o v) (hm : MarginsAt v o src.pos marginStart marginEnd)
    (hsrc : src ∈ app.views) (hl : l ∈ app.views) (hr : r ∈ app.views)
    (h : type.sides = (some s, some e)) (ho : type.toOrientation = o)
    (hne : ¬ (s = e ∧ l.pos = r.pos)) :
    formula type .fixed (findView (convertViews app o 0) src.pos)
        (findView (convertViews app o 0) l.pos)
        (some (findView (convertViews app o 0) r.pos)) v = true ↔
      (marginStart - marginEnd = doubleMargin type s e src l r ∨
        marginStart - marginEnd + 1 = doubleMargin type s e src l r) ∧
      (s = .start → e = .end → l.pos = 0 → r.pos = 0 →
        marginStart ≤ src.startAt o - l.startAt o ∧ marginEnd ≤ r.endAt o - src.endAt o) := by
  have hs := hv.edge hsrc .start
  have he := hv.edge hsrc .end
  have hls := hv.edge hl .start
  have hre := hv.edge hr .end
  simp only [Z3View.edge, View.edge] at hs he hls hre
  have hlpos := findView_pos (o := o) (d := 0) (App.pos_lt hl)
  have hrpos := findView_pos (o := o) (d := 0) (App.pos_lt hr)
  rw [formula_center h (by rw [hlpos, hrpos]; exact hne), (hm.of_view hsrc).1,
    (hm.of_view hsrc).2.1, (hm.of_view hsrc).2.2, hv.edge hl, hv.edge hr, hs, he, hls, hre,
    hlpos, hrpos, round_gap_half]
  simp only [doubleMargin, ho]
  apply and_congr _ Iff.rfl
  omega

end

/-! ## Computing with floats -/

/-- A number bounds the coordinates of an app. -/
def App.Within (app : App Prob) (bound : Nat) : Prop :=
  ∀ view ∈ app.views, ∀ o s, (view.edge o s).natAbs ≤ bound

/-- The computations of the generator with the coordinates of the app are exact. -/
def ExactIn (float : ℚ → ℚ) (app : App Prob) : Prop :=
  ∃ bound, app.Within bound ∧ ∀ n : Int, n.natAbs ≤ 4 * bound →
    float n = n ∧ float ((n : ℚ) / 2) = (n : ℚ) / 2

theorem App.exists_within (app : App Prob) : ∃ bound, app.Within bound := by
  let edges := app.views.flatMap fun view =>
    [view.xleft.natAbs, view.ytop.natAbs, view.xright.natAbs, view.ybottom.natAbs]
  obtain ⟨bound, hbound⟩ := edges.toFinset.exists_le
  refine ⟨bound, fun view hview o s => hbound _ (List.mem_toFinset.mpr ?_)⟩
  refine List.mem_flatMap.mpr ⟨view, hview, ?_⟩
  cases o <;> cases s <;> simp [View.edge, View.startAt, View.endAt]

theorem exactIn_id (app : App Prob) : ExactIn id app := by
  obtain ⟨bound, hbound⟩ := app.exists_within
  exact ⟨bound, hbound, fun n _ => ⟨rfl, rfl⟩⟩

/-- The floats of the program are exact for coordinates up to 2^22. -/
theorem exactIn_toFloat {app : App Prob} (h : app.Within (2 ^ 22)) : ExactIn toFloat app := by
  refine ⟨2 ^ 22, h, fun n hn => ?_⟩
  have hint : toFloat (n : ℚ) = n := toFloat_intCast (by omega)
  exact ⟨hint, by rw [toFloat_half, hint]⟩

section
variable {float : ℚ → ℚ} {app : App Prob} {src l r : View Prob} {type : ConstraintType}
variable {s e : Side}

theorem ExactIn.difference (h : ExactIn float app) (hl : l ∈ app.views) (hr : r ∈ app.views)
    (o : Orientation) (s e : Side) :
    float (l.edge o s - r.edge o e : Int) = (l.edge o s - r.edge o e : Int) := by
  obtain ⟨bound, hbound, hfloat⟩ := h
  have := hbound l hl o s
  have := hbound r hr o e
  exact (hfloat _ (by omega)).1

theorem ExactIn.start (h : ExactIn float app) (hsrc : src ∈ app.views) (hl : l ∈ app.views)
    (o : Orientation) (s : Side) :
    float (src.startAt o - l.edge o s : Int) = (src.startAt o - l.edge o s : Int) :=
  h.difference hsrc hl o .start s

theorem ExactIn.end (h : ExactIn float app) (hsrc : src ∈ app.views) (hr : r ∈ app.views)
    (o : Orientation) (e : Side) :
    float (r.edge o e - src.endAt o : Int) = (r.edge o e - src.endAt o : Int) :=
  h.difference hr hsrc o e .end

/-- On half-integers the tolerance `fabs(margin) < 0.5` of the generator only holds at 0. -/
theorem tolerance_eq (m : Int) : (if |(m : ℚ) / 2| < 1 / 2 then 0 else (m : ℚ) / 2) = m / 2 := by
  split
  · rename_i h
    have hm : |(m : ℚ)| < 1 := by
      rw [abs_div, abs_two] at h
      linarith
    have : m = 0 := by
      have := (abs_lt.mp hm)
      have h1 : (-1 : Int) < m := by exact_mod_cast this.1
      have h2 : m < 1 := by exact_mod_cast this.2
      omega
    simp [this]
  · rfl

theorem ExactIn.centeringMargin (h : ExactIn float app) (hsrc : src ∈ app.views)
    (hl : l ∈ app.views) (hr : r ∈ app.views) :
    centeringMargin float type s e src l r = (doubleMargin type s e src l r : ℚ) / 2 := by
  obtain ⟨bound, hbound, hfloat⟩ := h
  have hs := hbound src hsrc type.toOrientation .start
  have he := hbound src hsrc type.toOrientation .end
  have hls := hbound l hl type.toOrientation s
  have hre := hbound r hr type.toOrientation e
  simp only [View.edge] at hs he
  have hhalf (n : Int) (hn : n.natAbs ≤ 4 * bound) : float (float n * (1 / 2)) = (n : ℚ) / 2 := by
    rw [(hfloat n hn).1, mul_one_div, (hfloat n hn).2]
  have hdistance : middleDistance float type s e src l r =
      (doubleMargin type s e src l r : ℚ) / 2 := by
    rw [middleDistance, hhalf _ (by omega), hhalf _ (by omega), ← sub_div, ← Int.cast_sub]
    exact (hfloat _ (by omega)).2
  rw [InferUI.centeringMargin, hdistance]
  exact tolerance_eq _

/-- The margins of a centering candidate that are computed exactly. -/
theorem ExactIn.centeringCandidate [Zero Prob] (h : ExactIn float app) (hsrc : src ∈ app.views)
    (hl : l ∈ app.views) (hr : r ∈ app.views) (hsides : type.sides = (some s, some e))
    {attr : Attribute Prob} (hc : centeringCandidate float src l r type = some attr) :
    ¬ (l.id = r.id ∧ s = e ∧ doubleMargin type s e src l r ≠ 0) ∧
      attr = .ofCenter type .fixed (max (doubleMargin type s e src l r) 0)
        (max (-doubleMargin type s e src l r) 0) src.pos l.pos r.pos := by
  obtain ⟨hkeep, rfl⟩ := (centeringCandidate_eq_some hsides).mp hc
  rw [h.centeringMargin hsrc hl hr] at hkeep ⊢
  obtain ⟨bound, hbound, hfloat⟩ := h
  have hs := hbound src hsrc type.toOrientation .start
  have he := hbound src hsrc type.toOrientation .end
  have hls := hbound l hl type.toOrientation s
  have hre := hbound r hr type.toOrientation e
  simp only [View.edge] at hs he
  have hm : (doubleMargin type s e src l r).natAbs ≤ 4 * bound := by
    simp only [doubleMargin]
    omega
  generalize doubleMargin type s e src l r = m at hkeep hm
  have hne : (m : ℚ) / 2 ≠ 0 ↔ m ≠ 0 := by simp
  have hpos : (if 0 < (m : ℚ) / 2 then truncate (float (m / 2 * 2)) else 0) = max m 0 := by
    rw [div_mul_cancel₀ (m : ℚ) two_ne_zero, (hfloat m hm).1, truncate_intCast]
    rcases lt_or_ge 0 m with hm | hm
    · rw [if_pos (by positivity), max_eq_left hm.le]
    · have : (m : ℚ) ≤ 0 := by exact_mod_cast hm
      rw [if_neg (by linarith), max_eq_right hm]
  have hneg : (if (m : ℚ) / 2 < 0 then truncate (float (m / 2 * -2)) else 0) = max (-m) 0 := by
    rw [mul_neg, div_mul_cancel₀ (m : ℚ) two_ne_zero, ← Int.cast_neg,
      (hfloat (-m) (by omega)).1, truncate_intCast]
    rcases lt_or_ge m 0 with hm | hm
    · have : (m : ℚ) < 0 := by exact_mod_cast hm
      rw [if_pos (by linarith), max_eq_left (by omega)]
    · have : (0 : ℚ) ≤ m := by exact_mod_cast hm
      rw [if_neg (by linarith), max_eq_right (by omega)]
  rw [hne] at hkeep
  exact ⟨hkeep, by rw [hpos, hneg]⟩

/-- A centering margin comes out as 0 when the floats do not tell the two middles apart. -/
theorem centeringMargin_eq_zero {o : Orientation} (ho : type.toOrientation = o) :
    centeringMargin toFloat type s e src l r = 0 ↔
      toFloat (src.startAt o + src.endAt o : Int) = toFloat (l.edge o s + r.edge o e : Int) := by
  obtain ⟨a, ha⟩ := exists_toFloat_intCast (src.startAt o + src.endAt o)
  obtain ⟨b, hb⟩ := exists_toFloat_intCast (l.edge o s + r.edge o e)
  have hdistance : middleDistance toFloat type s e src l r = toFloat (a - b : Int) / 2 := by
    rw [middleDistance, ho, mul_one_div, mul_one_div, toFloat_half, toFloat_half, toFloat_toFloat,
      toFloat_toFloat, ha, hb, ← sub_div, toFloat_half, Int.cast_sub]
  rw [centeringMargin, hdistance, ha, hb, Int.cast_inj]
  rcases lt_trichotomy a b with hlt | rfl | hlt
  · have hone : (2 : ℚ) ^ (0 : ℤ) ≤ (b - a : Int) := by
      rw [zpow_zero]
      exact_mod_cast (by omega : 1 ≤ b - a)
    have := zpow_le_toFloat hone
    rw [zpow_zero, ← neg_sub a b, Int.cast_neg, toFloat_neg] at this
    rw [if_neg (by rw [abs_lt]; intro h; linarith)]
    exact iff_of_false (by linarith) hlt.ne
  · simp [toFloat_zero]
  · have hone : (2 : ℚ) ^ (0 : ℤ) ≤ (a - b : Int) := by
      rw [zpow_zero]
      exact_mod_cast (by omega : 1 ≤ a - b)
    have := zpow_le_toFloat hone
    rw [zpow_zero] at this
    rw [if_neg (by rw [abs_lt]; intro h; linarith)]
    exact iff_of_false (by linarith) hlt.ne'

end

/-! ## Every candidate satisfies its formula -/

variable [IsStrictOrderedRing K] [Zero Prob]

/-- At the concrete positions, with bias one half, the formula of an attribute holds for margins
that are not negative. -/
structure Attribute.SoundAt (attr : Attribute Prob) (K : Type) [Field K] [LinearOrder K]
    [FloorRing K] (app : App Prob) (o : Orientation) (pos : Nat) (marginStart marginEnd : Int) :
    Prop where
  start : 0 ≤ marginStart
  «end» : 0 ≤ marginEnd
  value : ∀ v : Assignment K, Concrete app o v → MarginsAt v o pos marginStart marginEnd →
    attributeValue (convertViews app o 0) attr v = true

theorem genAttributes_sound {float : ℚ → ℚ} {app : App Prob} (hexact : ExactIn float app)
    (hinside : app.InsideRoot) {o : Orientation} {src : View Prob} (hsrc : src ∈ app.views)
    {attr : Attribute Prob} (h : attr ∈ genAttributesWith float o src app.views) :
    attr.SoundAt K app o src.pos attr.valuePrimary attr.valueSecondary := by
  suffices hsound : 0 ≤ attr.valuePrimary ∧ 0 ≤ attr.valueSecondary ∧
      ∀ v : Assignment K, Concrete app o v →
        MarginsAt v o src.pos attr.valuePrimary attr.valueSecondary →
        attributeValue (convertViews app o 0) attr v = true from
    ⟨hsound.1, hsound.2.1, hsound.2.2⟩
  obtain ⟨view, hview, _, type, ht, hc⟩ | ⟨l, hl, r, hr, _, _, type, ht, hc⟩ :=
    mem_genAttributesWith.mp h
  · obtain ⟨hrel, ho⟩ := mem_relationalTypes.mp ht
    obtain ⟨_, margin, hmargin, hnonneg, rfl⟩ := relationalCandidate_eq_some.mp hc
    obtain ⟨s, hs, _, hstart⟩ | ⟨s, hs, _, hstart⟩ | ⟨_, _, _, hcen, _⟩ := type.sides_cases
    · rw [relationalMargin_start float hs, Option.some.injEq, ho] at hmargin
      rw [hexact.start hsrc hview] at hmargin
      subst hmargin
      rw [truncate_intCast, Attribute.ofRelational]
      simp only [hstart, ↓reduceIte, le_refl, true_and]
      refine ⟨Int.cast_nonneg_iff.mp hnonneg, fun v hv hm => ?_⟩
      have := (concrete_start hv hm hsrc hview hs).mpr (by omega)
      exact this
    · rw [relationalMargin_end float hs, Option.some.injEq, ho] at hmargin
      rw [hexact.end hsrc hview] at hmargin
      subst hmargin
      rw [truncate_intCast, Attribute.ofRelational]
      simp only [hstart, Option.some.injEq, Bool.false_eq_true, ↓reduceIte, le_refl, true_and]
      refine ⟨Int.cast_nonneg_iff.mp hnonneg, fun v hv hm => ?_⟩
      have := (concrete_end hv hm hsrc hview hs).mpr (by omega)
      exact this
    · rw [hrel] at hcen
      cases hcen
  · obtain ⟨hcen, ho⟩ := mem_centerTypes.mp ht
    obtain ⟨_, _, hrel, _⟩ | ⟨_, _, hrel, _⟩ | ⟨s, e, hs, _, _⟩ := type.sides_cases
    · rw [hcen] at hrel
      cases hrel
    · rw [hcen] at hrel
      cases hrel
    · obtain hc | hc := hc
      · obtain ⟨hkeep, rfl⟩ := hexact.centeringCandidate hsrc hl hr hs hc
        simp only [Attribute.ofCenter]
        refine ⟨by omega, by omega, fun v hv hm => ?_⟩
        by_cases hsame : s = e ∧ l.pos = r.pos
        · obtain ⟨rfl, hpos⟩ := hsame
          obtain rfl := App.eq_of_pos hl hr hpos
          have hzero : doubleMargin type s s src l l = 0 := by
            by_contra hne
            exact hkeep ⟨rfl, rfl, hne⟩
          have := (concrete_center_same hv hm hsrc hl hs ho).mpr (by omega)
          exact this
        · have := (concrete_center hv hm hsrc hl hr hs ho hsame).mpr (by
            refine ⟨Or.inl (by omega), ?_⟩
            rintro rfl rfl hl0 hr0
            have hroot := App.mem_views_iff.mp hl
            rw [hl0] at hroot
            obtain rfl := App.eq_of_pos hl hr (hl0.trans hr0.symm)
            have hin := hinside l hroot src hsrc o
            simp only [doubleMargin, ho, View.edge]
            omega)
          exact this
      · obtain ⟨h1, h2, rfl⟩ := (matchCandidate_eq_some hs).mp hc
        rw [ho] at h1 h2 ⊢
        rw [hexact.start hsrc hl] at h1 ⊢
        rw [hexact.end hsrc hr] at h2 ⊢
        simp only [Attribute.ofCenter, truncate_intCast]
        refine ⟨Int.cast_nonneg_iff.mp h1, Int.cast_nonneg_iff.mp h2, fun v hv hm => ?_⟩
        have := (concrete_match hv hm hsrc hl hr hs).mpr (by omega)
        exact this

/-- Whatever the generator emits has margins that are not negative and satisfies the formula of
its type and size, at the concrete positions and with bias one half, where its computations are
exact. This needs none of the checks of `IsValid`. -/
theorem candidate_satisfies_formula {float : ℚ → ℚ} {app : App Prob} (hexact : ExactIn float app)
    (hinside : app.InsideRoot) {o : Orientation} {src : View Prob} (hsrc : src ∈ app.views)
    {attr : Attribute Prob} (h : attr ∈ genAttributesWith float o src app.views) :
    0 ≤ attr.valuePrimary ∧ 0 ≤ attr.valueSecondary ∧
      ∀ v : Assignment K, Concrete app o v →
        MarginsAt v o src.pos attr.valuePrimary attr.valueSecondary →
        attributeValue (convertViews app o 0) attr v = true := by
  have sound : attr.SoundAt K app o src.pos attr.valuePrimary attr.valueSecondary :=
    genAttributes_sound hexact hinside hsrc h
  exact ⟨sound.start, sound.end, sound.value⟩

theorem candidate_satisfies_formula_sample :
    let src : View ℚ := ⟨10, 20, 30, 60, 1, 1, fun _ => none, fun _ => none⟩
    let attr : Attribute ℚ := .ofCenter .l2lxr2r .fixed 0 60 1 0 0
    0 ≤ attr.valuePrimary ∧ 0 ≤ attr.valueSecondary ∧
      ∀ v : Assignment ℚ, Concrete sampleApp .horizontal v →
        MarginsAt v .horizontal src.pos attr.valuePrimary attr.valueSecondary →
        attributeValue (convertViews sampleApp .horizontal 0) attr v = true := by
  intro src attr
  have hsrc : src ∈ sampleApp.views := List.mem_of_getElem? (i := 1) rfl
  have hwithin : sampleApp.Within (2 ^ 22) := by
    intro view hview o s
    simp only [sampleApp, App.ofViews, List.mapIdx_cons, List.mapIdx_nil, List.mem_cons,
      List.not_mem_nil, or_false] at hview
    obtain rfl | rfl := hview <;> cases o <;> cases s <;> decide
  exact candidate_satisfies_formula (exactIn_toFloat hwithin) sampleApp_insideRoot hsrc
    (by decide +kernel)

/-- Rounding changes the margins of a candidate and nothing else of it, but for a view that is
tied twice to one edge. -/
theorem exists_exact {app : App Prob} (hroot : app.Rooted) {o : Orientation} {src : View Prob}
    {attr : Attribute Prob} (h : attr ∈ genAttributes o src app.views)
    (hedges : ¬ (attr.type.isSameSide = true ∧ attr.tgtSecondary = some attr.tgtPrimary)) :
    ∃ exact ∈ genAttributesWith id o src app.views, exact.src = attr.src ∧
      exact.Constrains attr.type attr.viewSize attr.tgtPrimary attr.tgtSecondary := by
  obtain ⟨view, hview, hne, type, ht, hc⟩ | ⟨l, hl, r, hr, hlne, hrne, type, ht, hc⟩ :=
    mem_genAttributes.mp h
  · obtain ⟨hframe, margin, hmargin, hnonneg, rfl⟩ := relationalCandidate_eq_some.mp hc
    obtain ⟨n, hn, rfl⟩ : ∃ n, relationalMargin id type src view = some n ∧
        margin = toFloat n := by
      rw [relationalMargin_map, Option.map_eq_some_iff] at hmargin
      obtain ⟨n, hn, rfl⟩ := hmargin
      exact ⟨n, hn, rfl⟩
    exact ⟨_, mem_genAttributesWith.mpr (Or.inl ⟨view, hview, hne, type, ht,
      relationalCandidate_eq_some.mpr ⟨hframe, n, hn, toFloat_nonneg_iff.mp hnonneg, rfl⟩⟩), rfl,
      rfl, rfl, rfl, rfl⟩
  · obtain ⟨hcen, _⟩ := mem_centerTypes.mp ht
    obtain ⟨_, _, hrel, _⟩ | ⟨_, _, hrel, _⟩ | ⟨s, e, hs, _, hsame⟩ := type.sides_cases
    · rw [hcen] at hrel
      cases hrel
    · rw [hcen] at hrel
      cases hrel
    · obtain hc | hc := hc
      · obtain ⟨_, rfl⟩ := (centeringCandidate_eq_some hs).mp hc
        refine ⟨_, mem_genAttributesWith.mpr (Or.inr ⟨l, hl, r, hr, hlne, hrne, type, ht,
          Or.inl ((centeringCandidate_eq_some hs).mpr ⟨?_, rfl⟩)⟩), rfl, rfl, rfl, rfl, rfl⟩
        rintro ⟨hid, rfl, _⟩
        have hpos := (hroot.pos_eq_iff hl hr).mpr hid
        exact hedges ⟨by simp [Attribute.ofCenter, hsame], by rw [Attribute.ofCenter, hpos]⟩
      · obtain ⟨h1, h2, rfl⟩ := (matchCandidate_eq_some hs).mp hc
        rw [toFloat_nonneg_iff] at h1 h2
        exact ⟨_, mem_genAttributesWith.mpr (Or.inr ⟨l, hl, r, hr, hlne, hrne, type, ht,
          Or.inr ((matchCandidate_eq_some hs).mpr ⟨h1, h2, rfl⟩)⟩), rfl, rfl, rfl, rfl, rfl⟩

/-- So it still has margins at which its formula holds. -/
theorem exists_soundAt {app : App Prob} (hroot : app.Rooted) (hinside : app.InsideRoot)
    {o : Orientation} {src : View Prob} (hsrc : src ∈ app.views) {attr : Attribute Prob}
    (h : attr ∈ genAttributes o src app.views)
    (hedges : ¬ (attr.type.isSameSide = true ∧ attr.tgtSecondary = some attr.tgtPrimary)) :
    ∃ marginStart marginEnd, attr.SoundAt K app o src.pos marginStart marginEnd := by
  obtain ⟨exact, hexact, hown, htype, hsize, hprimary, hsecondary⟩ := exists_exact hroot h hedges
  have hsound : exact.SoundAt K app o src.pos exact.valuePrimary exact.valueSecondary :=
    genAttributes_sound (exactIn_id app) hinside hsrc hexact
  refine ⟨_, _, hsound.start, hsound.end, fun v hv hm => ?_⟩
  have := hsound.value v hv hm
  rwa [attributeValue, htype, hsize, hown, hprimary, hsecondary] at this

/-! ## Every formula has its candidate, or is half a pixel off -/

/-- Whenever a constraint that is enumerated for `src` holds at the concrete positions with bias
one half and some margins that are not negative, the generator emits it and it passes `IsValid`. -/
def GeneratorComplete (K : Type) [Field K] [LinearOrder K] [FloorRing K] (app : App Prob)
    (o : Orientation) (src : View Prob) : Prop :=
  ∀ entry ∈ (enumerated o (findView (convertViews app o 0) src.pos) (convertViews app o 0) :
      List (Enumerated K)),
    ∀ (v : Assignment K) (marginStart marginEnd : Int), Concrete app o v →
      MarginsAt v o src.pos marginStart marginEnd → 0 ≤ marginStart → 0 ≤ marginEnd →
      entry.value v = true →
      ∃ attr ∈ genAttributes o src app.views, attr.type = entry.type ∧
        attr.viewSize = entry.size ∧ attr.tgtPrimary = entry.l.pos ∧
        attr.tgtSecondary = entry.r.map (·.pos) ∧ ConstraintCache.isValid app attr = true

/-- The middle of `src` is half a pixel past an edge of some other view than the root, and the
floats tell the two apart. Up to 2^24 they do. -/
def HalfPixelOff (app : App Prob) (o : Orientation) (src : View Prob) : Prop :=
  ∃ l ∈ app.views, l.pos ≠ 0 ∧ l.pos ≠ src.pos ∧
    ∃ s, src.startAt o + src.endAt o = 2 * l.edge o s + 1 ∧
      toFloat (2 * l.edge o s : Int) ≠ toFloat (2 * l.edge o s + 1 : Int)

/-- A formula that holds has its candidate when the view is not half a pixel off. -/
theorem generated_of_formula {app : App Prob} (hroot : app.Rooted) {o : Orientation}
    {src : View Prob} (hsrc : src ∈ app.views) (hoff : ¬ HalfPixelOff app o src) :
    GeneratorComplete K app o src := by
  intro entry hentry v marginStart marginEnd hv hm h1 h2 hvalue
  have hsrcpos := findView_pos (o := o) (d := 0) (App.pos_lt hsrc)
  obtain ⟨tgt, htgt, hne, type, ht, hskip, rfl⟩ | ⟨size, hsize, l', hl', r', hr', hlne, hrne, type,
    ht, hskip, rfl⟩ := mem_enumerated.mp hentry
  · obtain ⟨view, hview, rfl, hpos⟩ := mem_convertViews_view htgt
    obtain ⟨hrel, ho⟩ := mem_relationalTypes.mp ht
    have hid : view.id ≠ src.id := by
      rw [Ne, ← hroot.pos_eq_iff hview hsrc, ← hpos, ← hsrcpos]
      exact fun e => hne e.symm
    have hframe : (view.isContentFrame && type.isOpposite) = false := by
      rw [Bool.and_eq_false_iff]
      by_contra hc
      simp only [not_or, Bool.not_eq_false] at hc
      exact hskip ⟨by rw [hpos]; exact (hroot.isContentFrame_iff hview).mp hc.1, hc.2⟩
    have hmargin : ∃ margin, relationalMargin toFloat type src view = some margin ∧
        0 ≤ margin := by
      obtain ⟨s, hs, _, _⟩ | ⟨s, hs, _, _⟩ | ⟨_, _, _, hcen, _⟩ := type.sides_cases
      · have := (concrete_start hv hm hsrc hview hs).mp hvalue
        refine ⟨_, relationalMargin_start toFloat hs src view, ?_⟩
        rw [toFloat_nonneg_iff, Int.cast_nonneg_iff, ho]
        omega
      · have := (concrete_end hv hm hsrc hview hs).mp hvalue
        refine ⟨_, relationalMargin_end toFloat hs src view, ?_⟩
        rw [toFloat_nonneg_iff, Int.cast_nonneg_iff, ho]
        omega
      · rw [hrel] at hcen
        cases hcen
    obtain ⟨margin, hmargin, hnonneg⟩ := hmargin
    refine ⟨_, mem_genAttributes.mpr (Or.inl ⟨view, hview, hid, type, ht,
      relationalCandidate_eq_some.mpr ⟨hframe, margin, hmargin, hnonneg, rfl⟩⟩), rfl, rfl,
      hpos.symm, rfl, ?_⟩
    simp only [ConstraintCache.isValid, Attribute.ofRelational, hrel, ↓reduceIte,
      Bool.not_eq_true', Bool.and_eq_false_iff]
    rw [hpos] at hskip
    by_cases h0 : view.pos = 0
    · exact Or.inr (by simpa [h0] using hskip)
    · exact Or.inl (decide_eq_false h0)
  · obtain ⟨l, hl, rfl, hlpos⟩ := mem_convertViews_view hl'
    obtain ⟨r, hr, rfl, hrpos⟩ := mem_convertViews_view hr'
    obtain ⟨hcen, ho⟩ := mem_centerTypes.mp ht
    obtain ⟨_, _, hrel, _⟩ | ⟨_, _, hrel, _⟩ | ⟨s, e, hs, _, _⟩ := type.sides_cases
    · rw [hcen] at hrel
      cases hrel
    · rw [hcen] at hrel
      cases hrel
    rw [skipsPair_iff hs, hlpos, hrpos] at hskip
    rw [hlpos, hsrcpos] at hlne
    rw [hrpos, hsrcpos] at hrne
    have hlid := mt (hroot.pos_eq_iff hl hsrc).mpr hlne
    have hrid := mt (hroot.pos_eq_iff hr hsrc).mpr hrne
    -- both kinds of candidate have the same targets, so they pass `IsValid` alike
    have found (attr : Attribute Prob) (hsz : attr.viewSize = size) (htype : attr.type = type)
        (hprimary : attr.tgtPrimary = l.pos) (hsecondary : attr.tgtSecondary = some r.pos)
        (hc : centeringCandidate toFloat src l r type = some attr ∨
          matchCandidate toFloat src l r type = some attr) :
        ∃ attr ∈ genAttributes o src app.views, attr.type = type ∧ attr.viewSize = size ∧
          attr.tgtPrimary = (findView (convertViews app o 0) l.pos).pos ∧
          attr.tgtSecondary =
            (some (findView (convertViews app o 0) r.pos)).map (·.pos) ∧
          ConstraintCache.isValid app attr = true := by
      refine ⟨attr, mem_genAttributes.mpr (Or.inr ⟨l, hl, r, hr, hlid, hrid, type, ht, hc⟩), htype,
        hsz, by rw [hlpos, hprimary], by rw [Option.map_some, hrpos, hsecondary], ?_⟩
      rw [isValid_center hroot (htype ▸ hs) (hprimary ▸ App.pos_lt hl) (App.pos_lt hr) hsecondary,
        hprimary]
      exact hskip
    obtain rfl | rfl := hsize
    · refine found _ rfl rfl rfl rfl (Or.inl ((centeringCandidate_eq_some hs).mpr ⟨?_, rfl⟩))
      rintro ⟨hid, rfl, hne⟩
      have hpos := (hroot.pos_eq_iff hl hr).mpr hid
      obtain rfl := App.eq_of_pos hl hr hpos
      obtain ⟨_, _, hzero | hone⟩ := (concrete_center_same hv hm hsrc hl hs ho).mp hvalue
      · apply hne
        rw [centeringMargin_eq_zero ho]
        congr 2
        simp only [doubleMargin, ho] at hzero
        omega
      · simp only [doubleMargin, ho] at hone
        have hodd : src.startAt o + src.endAt o = 2 * l.edge o s + 1 := by omega
        refine hoff ⟨l, hl, fun h0 => hskip (Or.inr ⟨h0, h0, rfl⟩), hlne, s, hodd, fun heq => ?_⟩
        apply hne
        rw [centeringMargin_eq_zero ho, hodd, ← two_mul, heq]
    · obtain ⟨hstart, hend⟩ := (concrete_match hv hm hsrc hl hr hs).mp hvalue
      refine found _ rfl rfl rfl rfl (Or.inr ((matchCandidate_eq_some hs).mpr ⟨?_, ?_, rfl⟩))
      · rw [toFloat_nonneg_iff, Int.cast_nonneg_iff, ho]
        omega
      · rw [toFloat_nonneg_iff, Int.cast_nonneg_iff, ho]
        omega

/-- A view that is half a pixel off satisfies a formula for which nothing is generated. -/
theorem not_generated_of_half_pixel {app : App Prob} {o : Orientation}
    {src : View Prob} (hsrc : src ∈ app.views) (hoff : HalfPixelOff app o src) :
    ¬ GeneratorComplete K app o src := by
  intro h
  obtain ⟨l, hl, hl0, hlsrc, s, hodd, hfloat⟩ := hoff
  obtain ⟨type, ht, hs⟩ := exists_sameSide o s
  obtain ⟨hcen, ho⟩ := mem_centerTypes.mp ht
  have hlpos := findView_pos (o := o) (d := 0) (App.pos_lt hl)
  have hsrcpos := findView_pos (o := o) (d := 0) (App.pos_lt hsrc)
  have hview : findView (convertViews app o 0) l.pos ∈ convertViews app o 0 :=
    mem_convertViews.mpr ⟨l.pos, App.pos_lt hl, rfl⟩
  have hskip : ¬ skipsPair type (findView (convertViews app o 0) l.pos).pos
      (findView (convertViews app o 0) l.pos).pos := by
    rw [skipsPair_iff hs, hlpos]
    rintro (⟨rfl, he, _⟩ | ⟨h0, _⟩)
    · cases he
    · exact hl0 h0
  have hne : (findView (convertViews app o 0) l.pos).pos ≠
      (findView (convertViews app o 0) src.pos).pos := by
    rwa [hlpos, hsrcpos]
  have hentry := mem_enumerated (K := K).mpr (Or.inr ⟨.fixed, Or.inl rfl, _, hview, _, hview,
    hne, hne, type, ht, hskip, rfl⟩)
  have hv := concreteModel_concrete (K := K) app o
  have hm : MarginsAt (concreteModel app o : Assignment K) o src.pos 0 0 := ⟨rfl, rfl, rfl⟩
  have hone : doubleMargin type s s src l l = 1 := by
    simp only [doubleMargin, ho]
    omega
  have hvalue := (concrete_center_same hv hm hsrc hl hs ho).mpr ⟨rfl, rfl, Or.inr hone⟩
  obtain ⟨attr, hattr, htype, hsize, hprimary, hsecondary, _⟩ :=
    h _ hentry _ 0 0 hv hm le_rfl le_rfl hvalue
  obtain ⟨_, _, _, type', ht', hc⟩ | ⟨l', hl', r', hr', _, _, type', ht', hc⟩ :=
    mem_genAttributes.mp hattr
  · obtain ⟨_, _, _, _, rfl⟩ := relationalCandidate_eq_some.mp hc
    obtain ⟨hrel, _⟩ := mem_relationalTypes.mp ht'
    simp only [Attribute.ofRelational] at htype
    rw [htype, hcen] at hrel
    cases hrel
  · obtain hc | hc := hc
    · obtain ⟨hrel, _⟩ := mem_centerTypes.mp ht'
      obtain ⟨_, _, hrel', _⟩ | ⟨_, _, hrel', _⟩ | ⟨s', e', hs', _, _⟩ := type'.sides_cases
      · rw [hrel] at hrel'
        cases hrel'
      · rw [hrel] at hrel'
        cases hrel'
      · obtain ⟨hkeep, rfl⟩ := (centeringCandidate_eq_some hs').mp hc
        simp only [Attribute.ofCenter, Option.map_some, Option.some.injEq]
          at htype hprimary hsecondary
        subst htype
        rw [hs, Prod.mk.injEq, Option.some.injEq, Option.some.injEq] at hs'
        obtain ⟨rfl, rfl⟩ := hs'
        obtain rfl := App.eq_of_pos hl' hl (hprimary.trans hlpos)
        obtain rfl := App.eq_of_pos hr' hl' (hsecondary.trans hlpos)
        refine hkeep ⟨rfl, rfl, ?_⟩
        rw [Ne, centeringMargin_eq_zero ho, hodd, ← two_mul]
        exact fun heq => hfloat heq.symm
    · obtain ⟨_, hmatch, _⟩ := matchCandidate_constrains hc
      rw [hsize] at hmatch
      cases hmatch

/-- The generator finds everything the enumeration accepts for a view, exactly when the view is
not half a pixel off the middle of an edge. -/
theorem generatorComplete_iff {app : App Prob} (hroot : app.Rooted) {o : Orientation}
    {src : View Prob} (hsrc : src ∈ app.views) :
    GeneratorComplete K app o src ↔ ¬ HalfPixelOff app o src := by
  constructor
  · intro h hoff
    exact not_generated_of_half_pixel hsrc hoff h
  · exact generated_of_formula hroot hsrc

/-- The middle of the last view is at 10.5, next to the start of the other one at 10. -/
def halfPixelApp : App ℚ := .ofViews [⟨0, 0, 100, 100, 0, 0, fun _ => none, fun _ => none⟩,
  ⟨10, 10, 20, 20, 1, 0, fun _ => none, fun _ => none⟩,
  ⟨5, 30, 16, 40, 2, 0, fun _ => none, fun _ => none⟩]

theorem halfPixelApp_rooted : halfPixelApp.Rooted := App.rooted_ofViews rfl (by decide)

theorem halfPixelApp_insideRoot : halfPixelApp.InsideRoot := by
  intro root h view hv o
  cases h
  simp only [halfPixelApp, App.ofViews, List.mapIdx_cons, List.mapIdx_nil, List.mem_cons,
    List.not_mem_nil, or_false] at hv
  obtain rfl | rfl | rfl := hv <;> cases o <;> decide

/-- The generator emits nothing for the view that the solver would center on that edge. -/
theorem halfPixelApp_incomplete :
    halfPixelApp.InsideRoot ∧
      ∃ src ∈ halfPixelApp.views, ¬ GeneratorComplete ℚ halfPixelApp .horizontal src := by
  refine ⟨halfPixelApp_insideRoot, _, List.mem_of_getElem? (i := 2) rfl,
    not_generated_of_half_pixel (List.mem_of_getElem? (i := 2) rfl) ?_⟩
  exact ⟨_, List.mem_of_getElem? (i := 1) rfl, by decide, by decide, .start, by decide,
    by decide +kernel⟩

theorem generatorComplete_iff_half_pixel :
    let src : View ℚ := ⟨5, 30, 16, 40, 2, 2, fun _ => none, fun _ => none⟩
    GeneratorComplete ℚ halfPixelApp .horizontal src ↔
      ¬ HalfPixelOff halfPixelApp .horizontal src := by
  intro src
  exact generatorComplete_iff halfPixelApp_rooted (List.mem_of_getElem? (i := 2) rfl)

end InferUI
