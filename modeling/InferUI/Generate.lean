import InferUI.Decimal
import InferUI.Layout

/-!
# The concrete candidate generator

`constraints.h` and `constraints.cpp`. The margins are computed in `float`, which rounds integers
from 2^24 on and half-integers from 2^23 on. The rounding is a parameter of the definitions; the
program's is `toFloat`. Sums and differences of two coordinates are taken to be in the range of
an `int`.
-/

namespace InferUI
variable {Prob : Type}

section
variable (float : ℚ → ℚ)

def centerMargin (type : ConstraintType) (a l r : View Prob) (bias : ℚ) : Option ℚ :=
  let scaled (n : Int) : ℚ := float (float n * bias)
  match type with
  | .l2lxr2r => some (float (scaled (a.xleft + a.xright) - scaled (l.xleft + r.xright)))
  | .l2rxr2l => some (float (scaled (a.xleft + a.xright) - scaled (l.xright + r.xleft)))
  | .l2lxr2l => some (float (scaled (a.xleft + a.xright) - scaled (l.xleft + r.xleft)))
  | .l2rxr2r => some (float (scaled (a.xleft + a.xright) - scaled (l.xright + r.xright)))
  | .t2txb2t => some (float (scaled (a.ytop + a.ybottom) - scaled (l.ytop + r.ytop)))
  | .t2txb2b => some (float (scaled (a.ytop + a.ybottom) - scaled (l.ytop + r.ybottom)))
  | .t2bxb2t => some (float (scaled (a.ytop + a.ybottom) - scaled (l.ybottom + r.ytop)))
  | .t2bxb2b => some (float (scaled (a.ytop + a.ybottom) - scaled (l.ybottom + r.ybottom)))
  | _ => none

def relationalMargin (type : ConstraintType) (a b : View Prob) : Option ℚ :=
  let returned (n : Int) : Option ℚ := some (float n)
  match type with
  | .t2t => returned (a.ytop - b.ytop)
  | .t2b => returned (a.ytop - b.ybottom)
  | .b2t => returned (b.ytop - a.ybottom)
  | .b2b => returned (b.ybottom - a.ybottom)
  | .l2l => returned (a.xleft - b.xleft)
  | .l2r => returned (a.xleft - b.xright)
  | .r2l => returned (b.xleft - a.xright)
  | .r2r => returned (b.xright - a.xright)
  | _ => none

end

def relationalTypes : Orientation → List ConstraintType
  | .horizontal => [.l2l, .l2r, .r2l, .r2r]
  | .vertical => [.t2t, .t2b, .b2t, .b2b]

def centerTypes : Orientation → List ConstraintType
  | .horizontal => [.l2lxr2l, .l2lxr2r, .l2rxr2l, .l2rxr2r]
  | .vertical => [.t2txb2t, .t2txb2b, .t2bxb2t, .t2bxb2b]

/-- The types that tie an edge of the source to the opposite edge of the target, left out
when the target is the content frame. -/
def ConstraintType.isOpposite : ConstraintType → Bool
  | .t2b | .b2t | .l2r | .r2l => true
  | _ => false

/-- The centering types with both anchors on the same edge of their targets. -/
def ConstraintType.isSameSide : ConstraintType → Bool
  | .l2lxr2l | .l2rxr2r | .t2txb2t | .t2bxb2b => true
  | _ => false

/-- `Product` of `containerutil.h`: a loop over all ordered pairs. -/
def product {α β : Type} (items : List α) (cb : α → α → List β) : List β :=
  items.flatMap fun l => items.flatMap fun r => cb l r

theorem mem_product {α β : Type} {items : List α} {cb : α → α → List β} {b : β} :
    b ∈ product items cb ↔ ∃ l ∈ items, ∃ r ∈ items, b ∈ cb l r := by
  simp [product, List.mem_flatMap]

section
variable [Zero Prob] (float : ℚ → ℚ)

/-- The body of the loop of `GenFixedSizeRelationalConstraints` for one target. -/
def relationalCandidate (src view : View Prob) (type : ConstraintType) :
    Option (Attribute Prob) :=
  if view.isContentFrame && type.isOpposite then none
  else (relationalMargin float type src view).bind fun margin =>
    if margin < 0 then none
    else some (.ofRelational type .fixed (truncate margin) src.pos view.pos)

def genFixedSizeRelationalConstraints (o : Orientation) (src : View Prob)
    (views : List (View Prob)) : List (Attribute Prob) :=
  views.flatMap fun view =>
    if view.id = src.id then []
    else (relationalTypes o).filterMap (relationalCandidate float src view)

/-- The body of the loop of `GenFixedSizeCenteringConstraints` for one pair of targets. -/
def centeringCandidate (src l r : View Prob) (type : ConstraintType) : Option (Attribute Prob) :=
  (centerMargin float type src l r (1 / 2)).bind fun margin =>
    let margin := if |margin| < 1 / 2 then 0 else margin
    if l.id = r.id ∧ margin ≠ 0 ∧ type.isSameSide = true then none
    else some (.ofCenter type .fixed (if 0 < margin then truncate (float (margin * 2)) else 0)
      (if margin < 0 then truncate (float (margin * -2)) else 0) src.pos l.pos r.pos)

def genFixedSizeCenteringConstraints (o : Orientation) (src : View Prob)
    (views : List (View Prob)) : List (Attribute Prob) :=
  product views fun l r =>
    if l.id = src.id ∨ r.id = src.id then []
    else (centerTypes o).filterMap (centeringCandidate float src l r)

/-- The body of the loop of `GenMatchConstraintCenteringConstraints` for one pair. -/
def matchCandidate (src l r : View Prob) (type : ConstraintType) : Option (Attribute Prob) := do
  let types ← type.splitCenterAnchor
  let marginStart ← relationalMargin float types.1 src l
  let marginEnd ← relationalMargin float types.2 src r
  if marginStart < 0 ∨ marginEnd < 0 then none
  else some (.ofCenter type .matchConstraint (truncate marginStart) (truncate marginEnd) src.pos
    l.pos r.pos)

def genMatchConstraintCenteringConstraints (o : Orientation) (src : View Prob)
    (views : List (View Prob)) : List (Attribute Prob) :=
  product views fun l r =>
    if l.id = src.id ∨ r.id = src.id then []
    else (centerTypes o).filterMap (matchCandidate float src l r)

/-- The attributes of one view in the order in which `InitializeBaseConstraints` and
`GenAttributesForApp` collect them, their margins computed with some rounding. -/
def genAttributesWith (o : Orientation) (src : View Prob) (views : List (View Prob)) :
    List (Attribute Prob) :=
  genFixedSizeRelationalConstraints float o src views ++
    genFixedSizeCenteringConstraints float o src views ++
    genMatchConstraintCenteringConstraints float o src views

/-- The attributes that the program collects. -/
def genAttributes (o : Orientation) (src : View Prob) (views : List (View Prob)) :
    List (Attribute Prob) :=
  genAttributesWith toFloat o src views

end

/-! ## The margins, read off the sides of a type -/

theorem mem_relationalTypes {o : Orientation} {type : ConstraintType} :
    type ∈ relationalTypes o ↔ type.isRelationalAnchor = true ∧ type.toOrientation = o := by
  cases o <;> cases type <;> decide

theorem mem_centerTypes {o : Orientation} {type : ConstraintType} :
    type ∈ centerTypes o ↔ type.isRelationalAnchor = false ∧ type.toOrientation = o := by
  cases o <;> cases type <;> decide

/-- A type is relational when exactly one of its anchors is present, centering when both. -/
theorem ConstraintType.sides_cases (type : ConstraintType) :
    (∃ s, type.sides = (some s, none) ∧ type.isRelationalAnchor = true ∧
      type.isTypeStart = some true) ∨
    (∃ s, type.sides = (none, some s) ∧ type.isRelationalAnchor = true ∧
      type.isTypeStart = some false) ∨
    (∃ s e, type.sides = (some s, some e) ∧ type.isRelationalAnchor = false ∧
      type.isSameSide = decide (s = e)) := by
  cases type <;> simp [sides, isRelationalAnchor, toIndex, isTypeStart, isSameSide]

section
variable (float : ℚ → ℚ)

theorem relationalMargin_map (type : ConstraintType) (a b : View Prob) :
    relationalMargin float type a b = (relationalMargin id type a b).map float := by
  cases type <;> rfl

theorem relationalMargin_start {type : ConstraintType} {s : Side}
    (h : type.sides = (some s, none)) (a b : View Prob) :
    relationalMargin float type a b =
      some (float (a.startAt type.toOrientation - b.edge type.toOrientation s : Int)) := by
  cases type <;> simp only [ConstraintType.sides, Prod.mk.injEq, Option.some.injEq,
    reduceCtorEq, and_true, and_false] at h <;> subst h <;> rfl

theorem relationalMargin_end {type : ConstraintType} {s : Side}
    (h : type.sides = (none, some s)) (a b : View Prob) :
    relationalMargin float type a b =
      some (float (b.edge type.toOrientation s - a.endAt type.toOrientation : Int)) := by
  cases type <;> simp only [ConstraintType.sides, Prod.mk.injEq, Option.some.injEq,
    reduceCtorEq, true_and, and_false, false_and] at h <;> subst h <;> rfl

/-- The margin of a centering type, as `CenterMargin` rounds it. -/
def middleDistance (type : ConstraintType) (s e : Side) (a l r : View Prob) : ℚ :=
  let o := type.toOrientation
  float (float (float (a.startAt o + a.endAt o : Int) * (1 / 2)) -
    float (float (l.edge o s + r.edge o e : Int) * (1 / 2)))

theorem centerMargin_eq {type : ConstraintType} {s e : Side}
    (h : type.sides = (some s, some e)) (a l r : View Prob) :
    centerMargin float type a l r (1 / 2) = some (middleDistance float type s e a l r) := by
  cases type <;> simp only [ConstraintType.sides, Prod.mk.injEq, Option.some.injEq,
    reduceCtorEq, and_false, false_and] at h <;> obtain ⟨rfl, rfl⟩ := h <;> rfl

end

/-- Splitting a centering type gives its two anchors, in its own orientation. -/
theorem splitCenterAnchor_eq {type : ConstraintType} {s e : Side}
    (h : type.sides = (some s, some e)) :
    ∃ start «end», type.splitCenterAnchor = some (start, «end») ∧
      start.sides = (some s, none) ∧ «end».sides = (none, some e) ∧
      start.toOrientation = type.toOrientation ∧ «end».toOrientation = type.toOrientation := by
  cases type <;> simp only [ConstraintType.sides, Prod.mk.injEq, Option.some.injEq,
    reduceCtorEq, and_false, false_and] at h <;> obtain ⟨rfl, rfl⟩ := h <;>
    exact ⟨_, _, rfl, rfl, rfl, rfl, rfl⟩

/-- Twice the distance, along an orientation, between the middle of `a` and the middle of
the edges a centering type ties it to: an integer. -/
def doubleMargin (type : ConstraintType) (s e : Side) (a l r : View Prob) : Int :=
  let o := type.toOrientation
  a.startAt o + a.endAt o - (l.edge o s + r.edge o e)

/-- The margin of `GenFixedSizeCenteringConstraints`, after the tolerance `fabs(margin) < 0.5`. -/
def centeringMargin (float : ℚ → ℚ) (type : ConstraintType) (s e : Side) (a l r : View Prob) : ℚ :=
  let margin := middleDistance float type s e a l r
  if |margin| < 1 / 2 then 0 else margin

section
variable [Zero Prob] {float : ℚ → ℚ}

/-- What the generator emits for a relational type. -/
theorem relationalCandidate_eq_some {src view : View Prob} {type : ConstraintType}
    {attr : Attribute Prob} :
    relationalCandidate float src view type = some attr ↔
      (view.isContentFrame && type.isOpposite) = false ∧
      ∃ margin, relationalMargin float type src view = some margin ∧ 0 ≤ margin ∧
        attr = .ofRelational type .fixed (truncate margin) src.pos view.pos := by
  unfold relationalCandidate
  cases hc : view.isContentFrame && type.isOpposite with
  | true => simp
  | false =>
    simp only [Bool.false_eq_true, ↓reduceIte, true_and]
    cases hm : relationalMargin float type src view with
    | none => simp
    | some margin =>
      simp only [Option.bind_some, Option.some.injEq, exists_eq_left',
        Option.ite_none_left_eq_some, not_lt]
      exact and_congr_right fun _ => eq_comm

/-- What the generator emits for a centering type of fixed size. Equal targets on the same
side are kept only when the margin comes out as 0. -/
theorem centeringCandidate_eq_some {src l r : View Prob} {type : ConstraintType} {s e : Side}
    (h : type.sides = (some s, some e)) {attr : Attribute Prob} :
    centeringCandidate float src l r type = some attr ↔
      let margin := centeringMargin float type s e src l r
      ¬ (l.id = r.id ∧ s = e ∧ margin ≠ 0) ∧
      attr = .ofCenter type .fixed (if 0 < margin then truncate (float (margin * 2)) else 0)
        (if margin < 0 then truncate (float (margin * -2)) else 0) src.pos l.pos r.pos := by
  have hs : type.isSameSide = decide (s = e) := by
    rcases type.sides_cases with ⟨_, h', _⟩ | ⟨_, h', _⟩ | ⟨_, _, h', _, hs⟩
    · simp [h] at h'
    · simp [h] at h'
    · simp only [h, Prod.mk.injEq, Option.some.injEq] at h'
      rw [h'.1, h'.2, hs]
  rw [centeringCandidate, centerMargin_eq float h, Option.bind_some, hs]
  change (if l.id = r.id ∧ centeringMargin float type s e src l r ≠ 0 ∧ decide (s = e) = true
    then none else _) = _ ↔ _
  simp only [decide_eq_true_eq, Option.ite_none_left_eq_some, Option.some.injEq]
  refine and_congr ?_ eq_comm
  rw [and_comm (a := centeringMargin float type s e src l r ≠ 0)]

/-- What the generator emits for a centering type that fills the gap of its targets. -/
theorem matchCandidate_eq_some {src l r : View Prob} {type : ConstraintType} {s e : Side}
    (h : type.sides = (some s, some e)) {attr : Attribute Prob} :
    matchCandidate float src l r type = some attr ↔
      let marginStart :=
        float (src.startAt type.toOrientation - l.edge type.toOrientation s : Int)
      let marginEnd := float (r.edge type.toOrientation e - src.endAt type.toOrientation : Int)
      0 ≤ marginStart ∧ 0 ≤ marginEnd ∧
      attr = .ofCenter type .matchConstraint (truncate marginStart) (truncate marginEnd) src.pos
        l.pos r.pos := by
  obtain ⟨start, «end», hsplit, hs, he, hos, hoe⟩ := splitCenterAnchor_eq h
  unfold matchCandidate
  simp only [hsplit, relationalMargin_start float hs, relationalMargin_end float he, hos, hoe,
    Option.bind_eq_bind, Option.bind_some, Option.ite_none_left_eq_some, Option.some.injEq,
    not_or, not_lt, and_assoc]
  exact and_congr_right fun _ => and_congr_right fun _ => eq_comm

/-- An attribute stands for a constraint of its type and size at its targets. -/
def Attribute.Constrains (attr : Attribute Prob) (type : ConstraintType) (size : ViewSize)
    (primary : Nat) (secondary : Option Nat) : Prop :=
  attr.type = type ∧ attr.viewSize = size ∧ attr.tgtPrimary = primary ∧
    attr.tgtSecondary = secondary

theorem relationalCandidate_constrains {src view : View Prob} {type : ConstraintType}
    {attr : Attribute Prob} (h : relationalCandidate float src view type = some attr) :
    attr.Constrains type .fixed view.pos none := by
  obtain ⟨_, _, _, _, rfl⟩ := relationalCandidate_eq_some.mp h
  exact ⟨rfl, rfl, rfl, rfl⟩

theorem centeringCandidate_constrains {src l r : View Prob} {type : ConstraintType}
    {attr : Attribute Prob} (h : centeringCandidate float src l r type = some attr) :
    attr.Constrains type .fixed l.pos (some r.pos) := by
  simp only [centeringCandidate, Option.bind_eq_some_iff, Option.ite_none_left_eq_some,
    Option.some.injEq] at h
  obtain ⟨_, _, _, rfl⟩ := h
  exact ⟨rfl, rfl, rfl, rfl⟩

theorem matchCandidate_constrains {src l r : View Prob} {type : ConstraintType}
    {attr : Attribute Prob} (h : matchCandidate float src l r type = some attr) :
    attr.Constrains type .matchConstraint l.pos (some r.pos) := by
  simp only [matchCandidate, Option.bind_eq_bind, Option.bind_eq_some_iff,
    Option.ite_none_left_eq_some, Option.some.injEq] at h
  obtain ⟨_, _, _, _, _, _, _, rfl⟩ := h
  exact ⟨rfl, rfl, rfl, rfl⟩

/-- An emitted attribute comes from one target, or from a pair of them, and a type. -/
theorem mem_genAttributesWith {o : Orientation} {src : View Prob} {views : List (View Prob)}
    {attr : Attribute Prob} :
    attr ∈ genAttributesWith float o src views ↔
      (∃ view ∈ views, view.id ≠ src.id ∧ ∃ type ∈ relationalTypes o,
        relationalCandidate float src view type = some attr) ∨
      (∃ l ∈ views, ∃ r ∈ views, l.id ≠ src.id ∧ r.id ≠ src.id ∧ ∃ type ∈ centerTypes o,
        centeringCandidate float src l r type = some attr ∨
          matchCandidate float src l r type = some attr) := by
  have hpair (f : ConstraintType → Option (Attribute Prob)) (l r : View Prob) :
      attr ∈ (if l.id = src.id ∨ r.id = src.id then [] else (centerTypes o).filterMap f) ↔
        l.id ≠ src.id ∧ r.id ≠ src.id ∧ ∃ type ∈ centerTypes o, f type = some attr := by
    split
    · rename_i hc
      constructor
      · intro hm
        cases hm
      · rintro ⟨h1, h2, _⟩
        exact absurd hc (by simp [h1, h2])
    · rename_i hc
      simp only [not_or] at hc
      simp [List.mem_filterMap, hc.1, hc.2]
  have hone (view : View Prob) :
      attr ∈ (if view.id = src.id then []
        else (relationalTypes o).filterMap (relationalCandidate float src view)) ↔
        view.id ≠ src.id ∧ ∃ type ∈ relationalTypes o,
          relationalCandidate float src view type = some attr := by
    split <;> simp [List.mem_filterMap, *]
  simp only [genAttributesWith, genFixedSizeRelationalConstraints, genFixedSizeCenteringConstraints,
    genMatchConstraintCenteringConstraints, List.mem_append, List.mem_flatMap, mem_product,
    hpair, hone]
  grind

theorem mem_genAttributes {o : Orientation} {src : View Prob} {views : List (View Prob)}
    {attr : Attribute Prob} :
    attr ∈ genAttributes o src views ↔
      (∃ view ∈ views, view.id ≠ src.id ∧ ∃ type ∈ relationalTypes o,
        relationalCandidate toFloat src view type = some attr) ∨
      (∃ l ∈ views, ∃ r ∈ views, l.id ≠ src.id ∧ r.id ≠ src.id ∧ ∃ type ∈ centerTypes o,
        centeringCandidate toFloat src l r type = some attr ∨
          matchCandidate toFloat src l r type = some attr) :=
  mem_genAttributesWith

end
end InferUI
