import InferUI.Encoding
import Mathlib.Data.Int.Order.Basic
import Mathlib.Tactic.Linarith

/-!
# The robust assertions

What `FullSynthesis` asserts so that a layout keeps its look on other screens: bounds on sizes,
views inside their root, and the `AssertKeeps...` functions, which `AppProperties` also uses as
checkers. They leave out pairs of views with another view between them.
-/

namespace InferUI
open Store
variable {Prob K : Type}

/-! ## Obstructed pairs -/

/-- `F`: zero on the line through two points, and of one sign on each side of it. -/
def lineSide (x y x1 x2 y1 y2 : Int) : Int :=
  (y2 - y1) * x + (x1 - x2) * y + (x2 * y1 - x1 * y2)

def closestPointIntersection (xleft xright yleft yright : Int) : Int × Int :=
  if xright < yleft then (xright, yleft)
  else if yright < xleft then (xleft, yright)
  else
    let left := max xleft yleft
    let right := min xright yright
    ((left + right).tdiv 2, (left + right).tdiv 2)

structure LineSegment where
  xleft : Int
  ytop : Int
  xright : Int
  ybottom : Int

/-- `intersects_loose`, which orders the two coordinates of a segment independently. -/
def LineSegment.intersectsLoose (segment : LineSegment) (node : View Prob) : Bool :=
  let xleft := min segment.xleft segment.xright
  let xright := max segment.xleft segment.xright
  let ytop := min segment.ytop segment.ybottom
  let ybottom := max segment.ytop segment.ybottom
  if xleft ≥ node.xright ∧ xright ≥ node.xright then false
  else if xleft ≤ node.xleft ∧ xright ≤ node.xleft then false
  else if ytop ≤ node.ytop ∧ ybottom ≤ node.ytop then false
  else if ytop ≥ node.ybottom ∧ ybottom ≥ node.ybottom then false
  else if node.ytop ≤ ytop ∧ node.ybottom ≥ ybottom ∧ node.xleft ≤ xleft ∧ node.xright ≥ xright then
    false
  else
    let sides := [lineSide node.xleft node.ybottom xleft xright ytop ybottom,
      lineSide node.xleft node.ytop xleft xright ytop ybottom,
      lineSide node.xright node.ybottom xleft xright ytop ybottom,
      lineSide node.xright node.ytop xleft xright ytop ybottom]
    !(sides.all fun side => decide (side ≥ 0)) && !(sides.all fun side => decide (side ≤ 0))

/-- The segment between the closest points of two views. -/
def LineSegment.between (src tgt : View Prob) : LineSegment :=
  let xpoints := closestPointIntersection src.xleft src.xright tgt.xleft tgt.xright
  let ypoints := closestPointIntersection src.ytop src.ybottom tgt.ytop tgt.ybottom
  ⟨xpoints.1, ypoints.1, xpoints.2, ypoints.2⟩

def numIntersections (src tgt : View Prob) (views : List (View Prob)) : Nat :=
  views.countP fun view =>
    !(decide (view.id = src.id) || decide (view.id = tgt.id)) &&
      (LineSegment.between src tgt).intersectsLoose view

/-- `NumIntersections` of the views at two positions of an app. -/
def App.numIntersections (app : App Prob) (i j : Nat) : Nat :=
  (app.views[i]?).elim 0 fun src => (app.views[j]?).elim 0 fun tgt =>
    InferUI.numIntersections src tgt app.views

/-- No coordinate is the -1 that stands for an unknown one. -/
def App.Known (app : App Prob) : Prop := ∀ view ∈ app.views, ∀ o s, view.edge o s ≠ -1

/-! ## The assertions -/

/-- The positions of `for (size_t i = first; i < last; i++)`. -/
def loop (first last : Nat) : List Nat := List.range' first (last - first)

theorem mem_loop {first last i : Nat} : i ∈ loop first last ↔ first ≤ i ∧ i < last := by
  rw [loop, List.mem_range'_1]
  omega

def Z3View.coordinate (view : Z3View) : Side → Int
  | .start => view.start
  | .end => view.end

/-- The bounds on the size of one view of a device. -/
def assertSizeBound (ref device : Z3View) : List (Expr K) :=
  if 0 < ref.end - ref.start then
    [fun v =>
      decide ((ref.end - ref.start).tdiv 2 < device.positionEnd v - device.positionStart v) &&
      decide (device.positionEnd v - device.positionStart v < (ref.end - ref.start) * 2)]
  else []

/-- The loop over the views, in the two syntheses that skip known positions. -/
def assertSizeBounds (refViews deviceViews : List Z3View) : List (Expr K) :=
  (loop 1 refViews.length).flatMap fun i =>
    if (findView refViews i).hasFixedPosition then []
    else assertSizeBound (findView refViews i) (findView deviceViews i)

def assertNotOutOfBounds (views : List Z3View) : List (Expr K) :=
  let root := findView views 0
  views.flatMap fun view =>
    if view.pos = 0 then []
    else if view.hasFixedPosition then []
    else [fun v => decide (root.positionStart v ≤ view.positionStart v),
      fun v => decide (view.positionEnd v ≤ root.positionEnd v)]

/-- Two edges are in the order of two coordinates. -/
def assertOrder (x y : Int) (a b : Assignment K → Int) : Expr K := fun v =>
  if x = y then decide (a v = b v)
  else if x < y then decide (a v < b v)
  else decide (a v > b v)

def sides : List Side := [.start, .end]

def assertKeepsIntersection (ref : App Prob) (refViews appViews : List Z3View) : List (Expr K) :=
  (loop 1 refViews.length).flatMap fun i => (loop (i + 1) refViews.length).flatMap fun j =>
    let srcRef := findView refViews i
    let tgtRef := findView refViews j
    if srcRef.hasFixedPosition && tgtRef.hasFixedPosition then []
    else if ref.numIntersections i j > 0 then []
    else sides.flatMap fun s => sides.map fun e =>
      assertOrder (srcRef.coordinate s) (tgtRef.coordinate e) ((findView appViews i).edge s)
        ((findView appViews j).edge e)

/-- Twice the middle of a view is the sum of two edges. -/
def assertMiddle (src l r : Z3View) (s e : Side) : Expr K := fun v =>
  decide (src.positionStart v + src.positionEnd v = l.edge s v + r.edge e v)

def assertKeepsCentering (ref : App Prob) (refViews appViews : List Z3View) : List (Expr K) :=
  let n := refViews.length
  (loop 1 n).flatMap fun i =>
    let srcRef := findView refViews i
    let rootRef := findView refViews 0
    (if srcRef.start + srcRef.end = rootRef.start + rootRef.end then
      [assertMiddle (findView appViews i) (findView appViews 0) (findView appViews 0) .start .end]
    else []) ++
    ((loop (i + 1) n).flatMap fun l =>
      let tgtRef := findView refViews l
      if srcRef.hasFixedPosition && tgtRef.hasFixedPosition then []
      else if srcRef.start + srcRef.end = tgtRef.start + tgtRef.end then
        [assertMiddle (findView appViews i) (findView appViews l) (findView appViews l) .start .end]
      else []) ++
    ((loop 0 n).flatMap fun l => if i = l then [] else (loop (l + 1) n).flatMap fun r =>
      let lRef := findView refViews l
      let rRef := findView refViews r
      if i = r then []
      else if ref.numIntersections i l > 0 ∨ ref.numIntersections i r > 0 then []
      else if srcRef.start + srcRef.end = lRef.start + rRef.end then
        [assertMiddle (findView appViews i) (findView appViews l) (findView appViews r) .start .end]
      else if srcRef.start + srcRef.end = lRef.end + rRef.start then
        [assertMiddle (findView appViews i) (findView appViews l) (findView appViews r) .end .start]
      else [])

def alignmentPoints (xleft xright yleft yright : Int) : Int × Int :=
  if xright ≤ yleft then (xright, yleft)
  else if yright ≤ xleft then (xleft, yright)
  else if (xleft ≤ yleft ∧ yright ≤ xright) ∨ (yleft ≤ xleft ∧ xright ≤ yright) then
    -- one contains the other
    if (xleft - yleft).natAbs < (xright - yright).natAbs then (xleft, yleft) else (xright, yright)
  else (-1, -1)

def keptMargins : List Nat := [0, 8, 14, 16, 20, 24, 30, 32, 48]

def assertKeepsMargins (ref : App Prob) (refViews appViews : List Z3View) : List (Expr K) :=
  (loop 1 refViews.length).flatMap fun i => (loop 0 i).flatMap fun j =>
    let srcRef := findView refViews i
    let tgtRef := findView refViews j
    let points := alignmentPoints srcRef.start srcRef.end tgtRef.start tgtRef.end
    let keep (s e : Side) : Expr K := fun v =>
      decide (srcRef.edge s v - tgtRef.edge e v =
        (findView appViews i).edge s v - (findView appViews j).edge e v)
    if srcRef.hasFixedPosition && tgtRef.hasFixedPosition then []
    else if points.1 = -1 ∨ (points.1 - points.2).natAbs ∉ keptMargins ∨
        ref.numIntersections i j > 0 then []
    else if srcRef.start = points.1 ∧ tgtRef.start = points.2 then [keep .start .start]
    else if srcRef.start = points.1 ∧ tgtRef.end = points.2 then [keep .start .end]
    else if srcRef.end = points.1 ∧ tgtRef.start = points.2 then [keep .end .start]
    else [keep .end .end]

/-- In the order of the `std::set` of pairs. -/
def ratiosFrac : List (Int × Int) := [(1, 1), (3, 4), (4, 3), (9, 16), (16, 9)]

def assertKeepsSizeRatio (ref : App Prob) (refViews appViews : List Z3View) (app : App Prob) :
    List (Expr K) :=
  (loop 1 refViews.length).flatMap fun i =>
    let width : Int := (ref.views[i]?).elim 0 (·.width)
    let height : Int := (ref.views[i]?).elim 0 (·.height)
    let vertical : Int := (app.views[i]?).elim 0 (·.height)
    let horizontal := findView appViews i
    if (findView refViews i).hasFixedPosition then []
    else (ratiosFrac.find? fun ratio => decide (width * ratio.1 = height * ratio.2)).elim []
      fun ratio => [fun v => decide
        ((horizontal.positionEnd v - horizontal.positionStart v) * ratio.1 = vertical * ratio.2)]

/-! ## What they mean -/

theorem assertOrder_iff {x y : Int} {a b : Assignment K → Int} {v : Assignment K} :
    assertOrder x y a b v = true ↔ (a v - b v).sign = (x - y).sign := by
  have hsign (m n : Int) : m.sign = n.sign ↔ (0 < m ↔ 0 < n) ∧ (m < 0 ↔ n < 0) := by
    rcases lt_trichotomy m 0 with hm | rfl | hm <;> rcases lt_trichotomy n 0 with hn | rfl | hn <;>
      simp_all [Int.sign_eq_one_of_pos, Int.sign_eq_neg_one_of_neg] <;> omega
  rw [hsign, assertOrder]
  split
  · rw [decide_eq_true_eq]
    omega
  · split <;> rw [decide_eq_true_eq] <;> omega

section
variable {ref app : App Prob} {o : Orientation} {d : Nat} {v : Assignment K}

theorem length_convertViews (app : App Prob) (o : Orientation) (d : Nat) :
    (convertViews app o d).length = app.views.length := List.length_map ..

theorem coordinate_findView {p : Nat} {view : View Prob} (h : app.views[p]? = some view)
    (s : Side) : (findView (convertViews app o d) p).coordinate s = view.edge o s := by
  rw [findView_eq h]
  cases s <;> rfl

theorem App.Known.fixed (h : app.Known) {p : Nat} (hlt : p < app.views.length) :
    (findView (convertViews app o d) p).hasFixedPosition = true := by
  have hview := h _ (List.getElem_mem hlt) o
  have hstart := hview .start
  have hend := hview .end
  rw [findView_eq (List.getElem?_eq_getElem hlt), Z3View.hasFixedPosition]
  simp only [View.edge] at hstart hend
  simp [hstart, hend]

theorem tdiv_two_lt {n m : Int} (h : 0 ≤ n) : n.tdiv 2 < m ↔ n < 2 * m := by
  rw [Int.tdiv_eq_ediv_of_nonneg h]
  omega

/-- A size is kept up to a factor of two. -/
theorem models_assertSizeBound {p : Nat} {view : View Prob} (h : ref.views[p]? = some view)
    {device : Z3View} :
    Models (assertSizeBound (findView (convertViews ref o 0) p) device) v ↔
      (0 < view.size o →
        view.size o < 2 * (device.positionEnd v - device.positionStart v) ∧
          device.positionEnd v - device.positionStart v < 2 * view.size o) := by
  rw [assertSizeBound, findView_eq h, View.size_eq]
  by_cases hsize : 0 < view.endAt o - view.startAt o
  · simp only [hsize, ↓reduceIte, models_cons, Bool.and_eq_true, decide_eq_true_eq, models_nil,
      and_true, tdiv_two_lt hsize.le, true_imp_iff]
    omega
  · rw [if_neg hsize]
    simp only [hsize, models_nil, false_imp_iff]

/-- The sizes that are bounded are those of views the reference does not place. -/
theorem models_assertSizeBounds {deviceViews : List Z3View} :
    Models (assertSizeBounds (convertViews ref o 0) deviceViews) v ↔
      ∀ p view, p ≠ 0 → ref.views[p]? = some view →
        (findView (convertViews ref o 0) p).hasFixedPosition = false → 0 < view.size o →
        let device := findView deviceViews p
        view.size o < 2 * (device.positionEnd v - device.positionStart v) ∧
          device.positionEnd v - device.positionStart v < 2 * view.size o := by
  rw [assertSizeBounds, models_flatMap, length_convertViews]
  constructor
  · intro h p view hp hview hfree
    have := h p (mem_loop.mpr ⟨by omega, (List.getElem?_eq_some_iff.mp hview).1⟩)
    rw [hfree, if_neg Bool.false_ne_true] at this
    exact (models_assertSizeBound hview).mp this
  · intro h p hp
    obtain ⟨hp, hlt⟩ := mem_loop.mp hp
    have hview := List.getElem?_eq_getElem hlt
    split
    · exact models_nil v
    · rename_i hfree
      exact (models_assertSizeBound hview).mpr
        (h p _ (by omega) hview (Bool.eq_false_iff.mpr hfree))

theorem models_assertNotOutOfBounds :
    Models (assertNotOutOfBounds (convertViews app o d)) v ↔
      ∀ p, p ≠ 0 → p < app.views.length →
        (findView (convertViews app o d) p).hasFixedPosition = false →
        let root := findView (convertViews app o d) 0
        let view := findView (convertViews app o d) p
        root.positionStart v ≤ view.positionStart v ∧ view.positionEnd v ≤ root.positionEnd v := by
  rw [assertNotOutOfBounds, models_flatMap, forall_convertViews]
  constructor
  · intro h p hp hlt hfree
    have := h p hlt
    simpa only [findView_pos hlt, hp, hfree, ↓reduceIte, Bool.false_eq_true, models_cons,
      decide_eq_true_eq, models_nil, and_true] using this
  · intro h p hlt
    rw [findView_pos hlt]
    by_cases hp : p = 0
    · simp [hp]
    · cases hfree : (findView (convertViews app o d) p).hasFixedPosition with
      | true => simp
      | false =>
        have := h p hp hlt hfree
        simpa only [hp, ↓reduceIte, Bool.false_eq_true, models_cons, decide_eq_true_eq,
          models_nil, and_true] using this

/-- The four pairs of edges of two views are in the order they have in the reference. -/
def KeepsOrder (ref : App Prob) (o : Orientation) (i j : Nat) (appViews : List Z3View)
    (v : Assignment K) : Prop :=
  let refViews := convertViews ref o 0
  ∀ s e, ((findView appViews i).edge s v - (findView appViews j).edge e v).sign =
    ((findView refViews i).coordinate s - (findView refViews j).coordinate e).sign

theorem models_assertKeepsIntersection {appViews : List Z3View} :
    Models (assertKeepsIntersection ref (convertViews ref o 0) appViews) v ↔
      ∀ i j, i ≠ 0 → i < j → j < ref.views.length →
        ¬ ((findView (convertViews ref o 0) i).hasFixedPosition = true ∧
          (findView (convertViews ref o 0) j).hasFixedPosition = true) →
        ref.numIntersections i j = 0 → KeepsOrder ref o i j appViews v := by
  rw [assertKeepsIntersection, models_flatMap, length_convertViews]
  have hpair (i j : Nat) : Models (sides.flatMap fun s => sides.map fun e =>
      assertOrder ((findView (convertViews ref o 0) i).coordinate s)
        ((findView (convertViews ref o 0) j).coordinate e) ((findView appViews i).edge s)
        ((findView appViews j).edge e)) v ↔ KeepsOrder ref o i j appViews v := by
    rw [models_flatMap, KeepsOrder]
    have hside (s : Side) : s ∈ sides := by cases s <;> decide
    simp only [models_map, assertOrder_iff, hside, true_imp_iff]
  simp only [models_flatMap, mem_loop]
  constructor
  · intro h i j hi hij hj hfree hnone
    have := h i ⟨by omega, by omega⟩ j ⟨by omega, hj⟩
    rw [if_neg (by simpa using hfree), if_neg (by omega)] at this
    exact (hpair i j).mp this
  · rintro h i ⟨hi, _⟩ j ⟨hij, hj⟩
    split
    · exact models_nil v
    · rename_i hfree
      split
      · exact models_nil v
      · exact (hpair i j).mpr (h i j (by omega) (by omega) hj (by simpa using hfree) (by omega))

end
end InferUI
