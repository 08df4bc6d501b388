import InferUI.Selection
import InferUI.Graph
import InferUI.Decimal

/-!
# From a model to a layout

`Z3View::AssignModel` and what it reads from the model. The bias goes through a decimal string
of four digits and a `float`, the margins through a cut-off, and those of a centering constraint
of fixed size through a shift.
-/

namespace InferUI
open Store
variable {Prob K : Type}

/-! ## Numbers -/

/-- The value of `get_decimal_string(4)` less a final `?`: the digits are cut off. -/
def getDecimal [Field K] [LinearOrder K] [FloorRing K] (x : K) : ℚ :=
  (if 0 ≤ x then ⌊x * 10000⌋ else ⌈x * 10000⌉ : Int) / 10000

section
variable [Field K] [LinearOrder K] [FloorRing K]

def Z3View.getBias (view : Z3View) (v : Assignment K) : ℚ := toFloat (getDecimal (view.bias v))

/-! ## Attributes -/

def adjustMargins (margins : Int × Int) : Int × Int :=
  let minValue := min margins.1 margins.2
  (margins.1 - minValue, margins.2 - minValue)

def Z3View.getMargins (view : Z3View) (v : Assignment K) (type : ConstraintType) : Int × Int :=
  let types := type.splitAnchor
  (if types.1.isSome ∧ view.marginStart v < 10000 then view.marginStart v else 0,
    if types.2.isSome ∧ view.marginEnd v < 10000 then view.marginEnd v else 0)

/-- The margins that `AssignModel` writes. -/
def Z3View.writtenMargins (view : Z3View) (v : Assignment K) (type : ConstraintType)
    (size : ViewSize) : Int × Int :=
  let margins := view.getMargins v type
  if type.isCenterAnchor ∧ size = .fixed then adjustMargins margins else margins

def Z3View.assignedAttribute [Zero Prob] (view : Z3View) (v : Assignment K)
    (data : ConstraintData) : Attribute Prob :=
  let margins := view.writtenMargins v data.type data.size
  ⟨data.type, data.size, margins.1, margins.2, view.pos, data.primary,
    if data.type.isCenterAnchor then some data.secondary.toNat else none, 0, view.getBias v⟩

variable [Zero Prob]

/-- `AssignModel`, without a scorer: the first constraint of the view that is selected replaces
its attribute. A view without one is reported and left alone. -/
def Z3View.assignModel (view : Z3View) (constraints : List ConstraintData) (o : Orientation)
    (v : Assignment K) (app : App Prob) : App Prob :=
  (constraints.find? v.select).elim app fun data =>
    app.applyAttribute o view.pos (view.assignedAttribute v data)

/-- The loop over the views of the reference after a query. -/
def assignModels (views : List Z3View) (constraints : Nat → List ConstraintData) (o : Orientation)
    (v : Assignment K) (app : App Prob) : App Prob :=
  (nonRoot views).foldl (fun app view => view.assignModel (constraints view.pos) o v app) app

/-! ## What the loop writes -/

/-- The attribute that the loop gives a view, if it gives it one. -/
def assigned (views : List Z3View) (constraints : Nat → List ConstraintData) (v : Assignment K)
    (p : Nat) : Option (Attribute Prob) :=
  ((constraints p).find? v.select).map ((findView views p).assignedAttribute v)

theorem getAttribute_assignModel {view : Z3View} {constraints : List ConstraintData}
    {o : Orientation} {v : Assignment K} {app : App Prob} (hlt : view.pos < app.views.length)
    (o' : Orientation) (q : Nat) :
    (view.assignModel constraints o v app).getAttribute o' q =
      if o' = o ∧ q = view.pos then
        ((constraints.find? v.select).map (view.assignedAttribute v)).or (app.getAttribute o' q)
      else app.getAttribute o' q := by
  rw [Z3View.assignModel]
  cases constraints.find? v.select with
  | none => simp
  | some data =>
    rw [Option.elim_some, App.getAttribute_applyAttribute app hlt]
    simp

theorem length_assignModel (view : Z3View) (constraints : List ConstraintData) (o : Orientation)
    (v : Assignment K) (app : App Prob) :
    (view.assignModel constraints o v app).views.length = app.views.length := by
  rw [Z3View.assignModel]
  cases constraints.find? v.select with
  | none => rfl
  | some data => exact App.length_applyAttribute ..

theorem idOf_assignModel (view : Z3View) (constraints : List ConstraintData) (o : Orientation)
    (v : Assignment K) (app : App Prob) (q : Nat) :
    (view.assignModel constraints o v app).idOf q = app.idOf q := by
  rw [Z3View.assignModel]
  cases constraints.find? v.select with
  | none => rfl
  | some data => exact App.idOf_applyAttribute ..

theorem length_assignModels (views : List Z3View) (constraints : Nat → List ConstraintData)
    (o : Orientation) (v : Assignment K) (app : App Prob) :
    (assignModels views constraints o v app).views.length = app.views.length := by
  rw [assignModels]
  induction nonRoot views generalizing app with
  | nil => rfl
  | cons view rest ih =>
    rw [List.foldl_cons, ih]
    exact length_assignModel ..

theorem idOf_assignModels (views : List Z3View) (constraints : Nat → List ConstraintData)
    (o : Orientation) (v : Assignment K) (app : App Prob) (q : Nat) :
    (assignModels views constraints o v app).idOf q = app.idOf q := by
  rw [assignModels]
  induction nonRoot views generalizing app with
  | nil => rfl
  | cons view rest ih =>
    rw [List.foldl_cons, ih]
    exact idOf_assignModel ..

/-- The loop gives every non-root view its own attribute and touches nothing else. -/
theorem getAttribute_assignModels {base app : App Prob} {o : Orientation}
    {constraints : Nat → List ConstraintData} {v : Assignment K}
    (hlength : app.views.length = base.views.length) (o' : Orientation) (q : Nat) :
    (assignModels (convertViews base o 0) constraints o v app).getAttribute o' q =
      if o' = o ∧ q ≠ 0 ∧ q < base.views.length then
        (assigned (convertViews base o 0) constraints v q).or (app.getAttribute o' q)
      else app.getAttribute o' q := by
  have loop (views : List Z3View) (app : App Prob)
      (hviews : ∀ view ∈ views, view.pos < app.views.length ∧
        findView (convertViews base o 0) view.pos = view) :
      (views.foldl (fun app view => view.assignModel (constraints view.pos) o v app) app).getAttribute
        o' q = if o' = o ∧ q ∈ views.map (·.pos) then
          (assigned (convertViews base o 0) constraints v q).or (app.getAttribute o' q)
        else app.getAttribute o' q := by
    induction views generalizing app with
    | nil => simp
    | cons view rest ih =>
      obtain ⟨hlt, hfind⟩ := hviews view List.mem_cons_self
      rw [List.foldl_cons, ih, getAttribute_assignModel hlt]
      · by_cases ho : o' = o
        · by_cases hq : q = view.pos
          · subst hq
            rw [assigned, hfind]
            simp only [ho, List.map_cons, List.mem_cons, true_or, and_self, ↓reduceIte, true_and]
            split
            · rw [← Option.or_assoc, Option.or_self]
            · rfl
          · simp [ho, hq]
        · simp [ho]
      · intro w hw
        rw [length_assignModel]
        exact hviews w (List.mem_cons_of_mem view hw)
  rw [assignModels, loop, nonRoot_positions]
  · simp [and_comm]
  · intro view hview
    obtain ⟨p, _, hlt, rfl⟩ := mem_nonRoot.mp hview
    rw [findView_pos hlt]
    exact ⟨hlength ▸ hlt, rfl⟩

end
end InferUI
