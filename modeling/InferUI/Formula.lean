import InferUI.Layout
import Mathlib.Algebra.Order.Floor.Ring
import Mathlib.Algebra.Field.Basic
import Mathlib.Tactic.Ring
import Mathlib.Tactic.Linarith

/-!
# The symbolic constraints

`Z3View`, the three `CONSTRAINTS` tables and `AttrResolver`. An assertion is a function of
an assignment of values to the solver's variables. `K` is the solver's type of reals.
-/

namespace InferUI

/-- What a constraint name says: `ConstraintName` prints it and `ConstraintData` reads it
back. A missing second target is -1. -/
structure ConstraintData where
  type : ConstraintType
  size : ViewSize
  orientation : Orientation
  src : Nat
  primary : Nat
  secondary : Int
  deriving DecidableEq, Repr

/-- Values for every variable the synthesis ever declares, under the arguments its name is
printed from: the unique id of a view, and a device or a satisfied id. A selection boolean
is named by its constraint. -/
structure Assignment (K : Type) where
  positionStart : Nat → Nat → Int
  positionEnd : Nat → Nat → Int
  marginStart : Nat → Int
  marginEnd : Nat → Int
  anchor : Nat → Int
  bias : Nat → K
  cost : Nat → K
  satisfied : Nat → Nat → Bool
  select : ConstraintData → Bool

abbrev Expr (K : Type) := Assignment K → Bool

def implies (a b : Bool) : Bool := !a || b

@[simp] theorem implies_eq_true {a b : Bool} :
    implies a b = true ↔ (a = true → b = true) := by cases a <;> simp [implies]

/-- `unique_id`. Its `CHECK_LT` stops the program from position 1000 on. -/
def uniqueId (pos : Nat) (o : Orientation) : Nat := pos + 1000 * o.toIndex

theorem uniqueId_sub (p : Nat) (o : Orientation) : uniqueId p o - 1000 * o.toIndex = p := by
  rw [uniqueId]
  omega

theorem uniqueId_inj {p q : Nat} {o o' : Orientation} (hp : p < 1000) (hq : q < 1000)
    (h : uniqueId p o = uniqueId q o') : p = q ∧ o = o' := by
  unfold uniqueId at h
  have hi : p = q ∧ o.toIndex = o'.toIndex := by omega
  exact ⟨hi.1, Orientation.toIndex_injective hi.2⟩

/-- The part of a `Z3View` that is fixed when it is made. Its `constraints` vector and its
`satisfied_id`, which the encoding updates, are kept in `Encoder`. -/
structure Z3View where
  pos : Nat
  orientation : Orientation
  deviceId : Nat
  start : Int
  «end» : Int
  deriving DecidableEq, Repr, Inhabited

namespace Z3View
variable {K : Type}

def uniqueId (view : Z3View) : Nat := InferUI.uniqueId view.pos view.orientation

def positionStart (view : Z3View) (v : Assignment K) : Int :=
  v.positionStart view.uniqueId view.deviceId

def positionEnd (view : Z3View) (v : Assignment K) : Int :=
  v.positionEnd view.uniqueId view.deviceId

def marginStart (view : Z3View) (v : Assignment K) : Int := v.marginStart view.uniqueId

def marginEnd (view : Z3View) (v : Assignment K) : Int := v.marginEnd view.uniqueId

def anchor (view : Z3View) (v : Assignment K) : Int := v.anchor view.uniqueId

def bias (view : Z3View) (v : Assignment K) : K := v.bias view.uniqueId

def cost (view : Z3View) (v : Assignment K) : K := v.cost view.uniqueId

def hasFixedPosition (view : Z3View) : Bool := decide (view.start ≠ -1) && decide (view.end ≠ -1)

def constraintName (view : Z3View) (type : ConstraintType) (size : ViewSize) (l : Z3View)
    (r : Option Z3View) : ConstraintData :=
  ⟨type, size, view.orientation, view.pos, l.pos, r.elim (-1) (·.pos)⟩

def edge (view : Z3View) : Side → Assignment K → Int
  | .start => view.positionStart
  | .end => view.positionEnd

end Z3View

def convertViews {Prob : Type} (app : App Prob) (o : Orientation) (deviceId : Nat) : List Z3View :=
  app.views.map fun view => ⟨view.pos, o, deviceId, view.startAt o, view.endAt o⟩

/-- `findView`: the Z3 view a pointer of an attribute refers to. -/
def findView (views : List Z3View) (p : Nat) : Z3View := views[p]?.getD default

/-- What the numeral in a half needs of 2, under one name wherever a half is written. -/
instance atLeastTwo : Nat.AtLeastTwo 2 := inferInstance

section
variable {K : Type} [Field K] [LinearOrder K] [FloorRing K]

def roundReal2int (x : K) : Int := ⌊x + 1 / 2⌋

abbrev ConstraintFn (K : Type) := Z3View → Z3View → Option Z3View → Expr K

/-- An entry of a `CONSTRAINTS` table: its horizontal and its vertical type, and `fn_`. -/
structure Constraint (K : Type) where
  type : ConstraintType × ConstraintType
  fn : ConstraintFn K

def Constraint.getType (constraint : Constraint K) : Orientation → ConstraintType
  | .horizontal => constraint.type.1
  | .vertical => constraint.type.2

def ConstraintRelationalFixedSize.constraints : List (Constraint K) := [
  ⟨(.l2l, .t2t), fun src tgt _ v =>
    decide (src.positionStart v = tgt.positionStart v + src.marginStart v)⟩,
  ⟨(.l2r, .t2b), fun src tgt _ v =>
    decide (src.positionStart v = tgt.positionEnd v + src.marginStart v)⟩,
  ⟨(.r2l, .b2t), fun src tgt _ v =>
    decide (src.positionEnd v = tgt.positionStart v - src.marginEnd v)⟩,
  ⟨(.r2r, .b2b), fun src tgt _ v =>
    decide (src.positionEnd v = tgt.positionEnd v - src.marginEnd v)⟩]

def ConstraintCenteringFixedSize.constraints : List (Constraint K) := [
  ⟨(.l2lxr2r, .t2txb2b), fun src start r v => r.any fun «end» =>
    let bias := src.bias v
    decide (roundReal2int
      (((1 - bias) * (start.positionStart v + src.marginStart v) +
          bias * (end.positionEnd v - src.marginEnd v)) -
        ((1 - bias) * src.positionStart v + bias * src.positionEnd v)) = 0) &&
    -- the clause against a bug of Android, for a view centered in the root
    (!(decide (start.pos = 0) && decide (end.pos = 0)) ||
      (decide (src.marginStart v ≤ src.positionStart v - start.positionStart v) &&
        decide (src.marginEnd v ≤ end.positionEnd v - src.positionEnd v)))⟩,
  ⟨(.l2lxr2l, .t2txb2t), fun src start r v => r.any fun «end» =>
    let bias := src.bias v
    if start.pos = end.pos then
      decide (src.marginStart v = 0) && decide (src.marginEnd v = 0) &&
      decide (roundReal2int
        (((1 - bias) * start.positionStart v + bias * end.positionStart v) -
          ((1 - bias) * src.positionStart v + bias * src.positionEnd v)) = 0)
    else
      decide (roundReal2int
        (((1 - bias) * (start.positionStart v + src.marginStart v) +
            bias * (end.positionStart v - src.marginEnd v)) -
          ((1 - bias) * src.positionStart v + bias * src.positionEnd v)) = 0)⟩,
  ⟨(.l2rxr2r, .t2bxb2b), fun src start r v => r.any fun «end» =>
    let bias := src.bias v
    if start.pos = end.pos then
      decide (src.marginStart v = 0) && decide (src.marginEnd v = 0) &&
      decide (roundReal2int
        (((1 - bias) * start.positionEnd v + bias * end.positionEnd v) -
          ((1 - bias) * src.positionStart v + bias * src.positionEnd v)) = 0)
    else
      decide (roundReal2int
        (((1 - bias) * (start.positionEnd v + src.marginStart v) +
            bias * (end.positionEnd v - src.marginEnd v)) -
          ((1 - bias) * src.positionStart v + bias * src.positionEnd v)) = 0)⟩,
  ⟨(.l2rxr2l, .t2bxb2t), fun src start r v => r.any fun «end» =>
    let bias := src.bias v
    decide (roundReal2int
      (((1 - bias) * (start.positionEnd v + src.marginStart v) +
          bias * (end.positionStart v - src.marginEnd v)) -
        ((1 - bias) * src.positionStart v + bias * src.positionEnd v)) = 0)⟩]

def ConstraintCenteringMatchConstraint.constraints : List (Constraint K) := [
  ⟨(.l2lxr2r, .t2txb2b), fun src start r v => r.any fun «end» =>
    decide (src.positionStart v = start.positionStart v + src.marginStart v) &&
    decide (src.positionEnd v = end.positionEnd v - src.marginEnd v)⟩,
  ⟨(.l2lxr2l, .t2txb2t), fun src start r v => r.any fun «end» =>
    decide (src.positionStart v = start.positionStart v + src.marginStart v) &&
    decide (src.positionEnd v = end.positionStart v - src.marginEnd v)⟩,
  ⟨(.l2rxr2r, .t2bxb2b), fun src start r v => r.any fun «end» =>
    decide (src.positionStart v = start.positionEnd v + src.marginStart v) &&
    decide (src.positionEnd v = end.positionEnd v - src.marginEnd v)⟩,
  ⟨(.l2rxr2l, .t2bxb2t), fun src start r v => r.any fun «end» =>
    decide (src.positionStart v = start.positionEnd v + src.marginStart v) &&
    decide (src.positionEnd v = end.positionStart v - src.marginEnd v)⟩]

namespace AttrResolver

/-- The tables the constructor fills, by index into the three lists above. -/
def fixedSizeConstraints : List (ConstraintFn K) :=
  ([0, 1, 2, 3, 0, 1, 2, 3].filterMap fun i =>
    (ConstraintRelationalFixedSize.constraints[i]?).map (·.fn)) ++
  ([1, 0, 3, 2, 1, 0, 3, 2].filterMap fun i =>
    (ConstraintCenteringFixedSize.constraints[i]?).map (·.fn))

def dynamicSizeConstraints : List (ConstraintFn K) :=
  [1, 0, 3, 2, 1, 0, 3, 2].filterMap fun i =>
    (ConstraintCenteringMatchConstraint.constraints[i]?).map (·.fn)

def resolveAttr (type : ConstraintType) (size : ViewSize) : Option (ConstraintFn K) :=
  if size = .fixed then fixedSizeConstraints[type.toIndex]?
  else if type.toIndex < 8 then none
  else dynamicSizeConstraints[type.toIndex - 8]?

end AttrResolver

/-- The formula of a type and size at the given views. -/
def formula (type : ConstraintType) (size : ViewSize) : ConstraintFn K :=
  fun src l r v => (AttrResolver.resolveAttr type size).any fun fn => fn src l r v

/-! ## The formulas, read off the sides of a type -/

/-- The weighted distance a centering constraint of fixed size rounds to zero. -/
def gap (bias : K) (l r marginStart marginEnd start «end» : Int) : K :=
  ((1 - bias) * (l + marginStart) + bias * (r - marginEnd)) -
    ((1 - bias) * start + bias * «end»)

theorem formula_start {type : ConstraintType} {s : Side} (h : type.sides = (some s, none))
    (src l : Z3View) (r : Option Z3View) (v : Assignment K) :
    formula type .fixed src l r v =
      decide (src.positionStart v = l.edge s v + src.marginStart v) := by
  cases type <;> simp only [ConstraintType.sides, Prod.mk.injEq, Option.some.injEq,
    reduceCtorEq, and_true, and_false] at h <;> subst h <;> rfl

theorem formula_end {type : ConstraintType} {s : Side} (h : type.sides = (none, some s))
    (src l : Z3View) (r : Option Z3View) (v : Assignment K) :
    formula type .fixed src l r v =
      decide (src.positionEnd v = l.edge s v - src.marginEnd v) := by
  cases type <;> simp only [ConstraintType.sides, Prod.mk.injEq, Option.some.injEq,
    reduceCtorEq, true_and, false_and] at h <;> subst h <;> rfl

/-- The margins are ignored when both anchors of a centering type are the same one. -/
theorem formula_center_same {type : ConstraintType} {s : Side}
    (h : type.sides = (some s, some s)) {src l r : Z3View} (hpos : l.pos = r.pos)
    (v : Assignment K) :
    formula type .fixed src l (some r) v = true ↔
      src.marginStart v = 0 ∧ src.marginEnd v = 0 ∧
      roundReal2int (gap (src.bias v) (l.edge s v) (r.edge s v) 0 0
        (src.positionStart v) (src.positionEnd v)) = 0 := by
  have unfolded : formula type .fixed src l (some r) v =
      (decide (src.marginStart v = 0) && decide (src.marginEnd v = 0) &&
        decide (roundReal2int (((1 - src.bias v) * l.edge s v + src.bias v * r.edge s v) -
          ((1 - src.bias v) * src.positionStart v + src.bias v * src.positionEnd v)) = 0)) := by
    cases type <;> simp only [ConstraintType.sides, Prod.mk.injEq, Option.some.injEq,
      reduceCtorEq, and_false, false_and, and_self] at h
    case l2lxr2l | t2txb2t | l2rxr2r | t2bxb2b =>
      subst h
      exact if_pos hpos
    all_goals
      obtain ⟨rfl, h⟩ := h
      cases h
  rw [unfolded]
  simp [gap, and_assoc]

/-- Otherwise both margins count, and a view centered in the root may not be pushed by
them past the edges of the root. -/
theorem formula_center {type : ConstraintType} {s e : Side}
    (h : type.sides = (some s, some e)) {src l r : Z3View} (hpos : ¬ (s = e ∧ l.pos = r.pos))
    (v : Assignment K) :
    formula type .fixed src l (some r) v = true ↔
      roundReal2int (gap (src.bias v) (l.edge s v) (r.edge e v) (src.marginStart v)
        (src.marginEnd v) (src.positionStart v) (src.positionEnd v)) = 0 ∧
      (s = .start → e = .end → l.pos = 0 → r.pos = 0 →
        src.marginStart v ≤ src.positionStart v - l.positionStart v ∧
        src.marginEnd v ≤ r.positionEnd v - src.positionEnd v) := by
  have unfolded : formula type .fixed src l (some r) v =
      (decide (roundReal2int (gap (src.bias v) (l.edge s v) (r.edge e v) (src.marginStart v)
        (src.marginEnd v) (src.positionStart v) (src.positionEnd v)) = 0) &&
      (!(decide (s = .start) && decide (e = .end) && decide (l.pos = 0) && decide (r.pos = 0)) ||
        (decide (src.marginStart v ≤ src.positionStart v - l.positionStart v) &&
          decide (src.marginEnd v ≤ r.positionEnd v - src.positionEnd v)))) := by
    cases type <;> simp only [ConstraintType.sides, Prod.mk.injEq, Option.some.injEq,
      reduceCtorEq, and_false, false_and] at h <;> obtain ⟨rfl, rfl⟩ := h
    case l2lxr2r | t2txb2b => rfl
    case l2rxr2l | t2bxb2t => exact (Bool.and_true _).symm
    all_goals
      have hne : ¬ l.pos = r.pos := fun hp => hpos ⟨rfl, hp⟩
      exact (if_neg hne).trans (Bool.and_true _).symm
  rw [unfolded]
  simp only [Bool.and_eq_true, decide_eq_true_eq, Bool.or_eq_true, Bool.not_eq_true',
    Bool.and_eq_false_iff, decide_eq_false_iff_not]
  grind

theorem formula_match {type : ConstraintType} {s e : Side} (h : type.sides = (some s, some e))
    {size : ViewSize} (hsize : size ≠ .fixed) (src l r : Z3View) (v : Assignment K) :
    formula type size src l (some r) v = true ↔
      src.positionStart v = l.edge s v + src.marginStart v ∧
      src.positionEnd v = r.edge e v - src.marginEnd v := by
  have unfolded : formula type size src l (some r) v =
      (decide (src.positionStart v = l.edge s v + src.marginStart v) &&
        decide (src.positionEnd v = r.edge e v - src.marginEnd v)) := by
    cases type <;> simp only [ConstraintType.sides, Prod.mk.injEq, Option.some.injEq,
      reduceCtorEq, and_false, false_and] at h <;> obtain ⟨rfl, rfl⟩ := h <;>
      cases size <;> first | rfl | exact absurd rfl hsize
  rw [unfolded, Bool.and_eq_true, decide_eq_true_eq, decide_eq_true_eq]

end
end InferUI
