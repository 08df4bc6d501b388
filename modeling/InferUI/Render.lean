import InferUI.Document

/-!
# The renderer reads what is written

`LayoutUtil.java` makes a widget of each view's properties and connects it to others. A float
is the rational it stands for, `null` where the renderer needs a value is `none`. What a new
`ConstraintWidget` has as its bias is a parameter.

`rendered_as_written`: `GetWidgets` and `AddConstraints` recover from the properties of an app
the connections, dimensions and biases of its attributes.
-/

namespace InferUI.Document
variable {Prob : Type}

/-! ## Values -/

/-- `value.substring(0, value.length() - 2)`. -/
def dropUnit (value : String) : List Char := value.toList.take (value.toList.length - 2)

/-- `Integer.parseInt` of the value without its unit. -/
def parseInt (value : String) : Option Int :=
  (readInt (dropUnit value)).filter fun n => decide (-2 ^ 31 ≤ n ∧ n < 2 ^ 31)

/-- `Float.parseFloat` of the value without its unit. -/
def parseFloat (value : String) : Option ℚ := (readDecimal (dropUnit value)).map toFloat

/-- `Math.round` of a float. -/
def mathRound (x : ℚ) : Int := max (-2 ^ 31) (min (2 ^ 31 - 1) ⌊x + 1 / 2⌋)

def hasUnit (unit value : String) : Bool := unit.toList.isSuffixOf value.toList

/-- `ParseValue` of a string. -/
def parseValue (value : String) : Option Int :=
  if hasUnit "dp" value then (parseFloat value).map fun v => mathRound (v * 2)
  else if hasUnit "px" value then parseInt value
  else some 0

/-- `ParseValue` of an entry, which makes a float of an integer. -/
def parseEntry (view : Properties) (name : String) (defaultValue : ℚ) : Option ℚ :=
  match view name with
  | none => some defaultValue
  | some value => (parseValue value).map fun n : Int => toFloat n

/-! ## Widgets -/

/-- `ConstraintAnchor.Type`. -/
inductive Anchor where
  | left | right | top | bottom
  deriving DecidableEq, Repr

/-- `ConstraintWidget.DimensionBehaviour`. -/
inductive DimensionBehaviour where
  | matchParent | matchConstraint | fixed
  deriving DecidableEq, Repr

structure Connection where
  anchor : Anchor
  /-- The widget that is connected to, by the place of its view. -/
  target : Nat
  targetAnchor : Anchor
  margin : Int
  deriving DecidableEq, Repr

/-- What `LayoutUtil` sets of a `ConstraintWidget`. -/
structure Widget where
  width : Int
  height : Int
  horizontalDimensionBehaviour : DimensionBehaviour
  verticalDimensionBehaviour : DimensionBehaviour
  debugName : String
  horizontalChainStyle : Option Nat := none
  verticalChainStyle : Option Nat := none
  horizontalBiasPercent : ℚ
  verticalBiasPercent : ℚ
  connections : List Connection := []
  deriving DecidableEq, Repr

def marginName : Anchor → String
  | .left => "android:layout_marginLeft"
  | .right => "android:layout_marginRight"
  | .top => "android:layout_marginTop"
  | .bottom => "android:layout_marginBottom"

def getMargin (view : Properties) (type : Anchor) : Option Int :=
  (parseEntry view (marginName type) 0).map mathRound

structure ViewDimension where
  value : Int
  behaviour : DimensionBehaviour
  deriving DecidableEq, Repr

def ViewDimension.ofJson (jsonValue : String) : Option ViewDimension :=
  if jsonValue = "match_parent" ∨ jsonValue = "fill_parent" then some ⟨0, .matchParent⟩
  else if jsonValue = "0dp" ∨ jsonValue = "0dip" then some ⟨0, .matchConstraint⟩
  else (parseValue jsonValue).map (⟨·, .fixed⟩)

def getChainStyleId (chainStyle : String) : Nat :=
  if chainStyle = "packed" ∨ chainStyle = "CHAIN_PACKED" then 2
  else if chainStyle = "spread" ∨ chainStyle = "CHAIN_SPREAD" then 0
  else if chainStyle = "spread_inside" ∨ chainStyle = "CHAIN_SPREAD_INSIDE" then 1
  else 2

/-- The widget of one view. -/
def getWidget (defaultBias : ℚ) (view : Properties) : Option Widget := do
  let horizontal ← ViewDimension.ofJson (← view "android:layout_width")
  let vertical ← ViewDimension.ofJson (← view "android:layout_height")
  let id ← view "android:id"
  return {
    width := horizontal.value
    height := vertical.value
    horizontalDimensionBehaviour := horizontal.behaviour
    verticalDimensionBehaviour := vertical.behaviour
    debugName := id
    horizontalBiasPercent := defaultBias
    verticalBiasPercent := defaultBias }

/-- Which widget an id stands for: the last one that was put under it. -/
abbrev WidgetTable := String → Option Nat

def putWidget (table : WidgetTable) (entry : Widget × Nat) : WidgetTable :=
  Function.update table entry.1.debugName (some entry.2)

/-- `GetWidgets`: the widgets, and the table of their ids. -/
def getWidgets (defaultBias : ℚ) (views : List Properties) :
    Option (List Widget × WidgetTable) := do
  let widgets ← views.mapM (getWidget defaultBias)
  return (widgets, widgets.zipIdx.foldl putWidget fun _ => none)

/-- One of the eight anchors that `AddConstraints` looks for. -/
def addConstraint (widgets : WidgetTable) (view : Properties) (widget : Widget)
    (constraint : String × Anchor × Anchor) : Option Widget :=
  match view constraint.1 with
  | none => some widget
  | some targetId => do
    let target ← widgets targetId
    let margin ← getMargin view constraint.2.1
    return { widget with
      connections := widget.connections ++
        [⟨constraint.2.1, target, constraint.2.2, margin⟩] }

/-- The anchors that `AddConstraints` looks for, in its order. -/
def constraints : List (String × Anchor × Anchor) :=
  [("app:layout_constraintRight_toRightOf", .right, .right),
    ("app:layout_constraintRight_toLeftOf", .right, .left),
    ("app:layout_constraintLeft_toRightOf", .left, .right),
    ("app:layout_constraintLeft_toLeftOf", .left, .left),
    ("app:layout_constraintTop_toTopOf", .top, .top),
    ("app:layout_constraintTop_toBottomOf", .top, .bottom),
    ("app:layout_constraintBottom_toTopOf", .bottom, .top),
    ("app:layout_constraintBottom_toBottomOf", .bottom, .bottom)]

/-- The chain styles, which no property of the emitter sets. -/
def addChainStyles (view : Properties) (widget : Widget) : Widget :=
  { widget with
    verticalChainStyle :=
      ((view "app:layout_constraintVertical_chainStyle").map getChainStyleId).or
        widget.verticalChainStyle
    horizontalChainStyle :=
      ((view "app:layout_constraintHorizontal_chainStyle").map getChainStyleId).or
        widget.horizontalChainStyle }

/-- `Float.parseFloat` of a bias that is there; else the bias stays what it is. -/
def readBias (view : Properties) (name : String) (bias : ℚ) : Option ℚ :=
  match view name with
  | none => some bias
  | some value => (readDecimal value.toList).map toFloat

def addBiases (view : Properties) (widget : Widget) : Option Widget := do
  let horizontal ← readBias view "app:layout_constraintHorizontal_bias"
    widget.horizontalBiasPercent
  let vertical ← readBias view "app:layout_constraintVertical_bias" widget.verticalBiasPercent
  return { widget with horizontalBiasPercent := horizontal, verticalBiasPercent := vertical }

/-- `AddConstraints`. -/
def addConstraints (widget : Widget) (view : Properties) (widgets : WidgetTable) :
    Option Widget := do
  let widget ← addBiases view (addChainStyles view widget)
  constraints.foldlM (addConstraint widgets view) widget

/-- One round of the loop of `LayoutViews` that connects the widgets. -/
def connectView (table : WidgetTable) (widgets : List Widget) (view : Properties) :
    Option (List Widget) := do
  let id ← view "android:id"
  if id = "parent" then return widgets
  let i ← table id
  let widget ← widgets[i]?
  return widgets.set i (← addConstraints widget view table)

/-- The widgets that `LayoutViews` hands to the solver. -/
def readViews (defaultBias : ℚ) (views : List Properties) : Option (List Widget) := do
  let (widgets, table) ← getWidgets defaultBias views
  views.foldlM (connectView table) widgets

/-! ## Values that are written are read -/

theorem toList_px (n : Int) : (px n).toList = n.repr.toList ++ ['p', 'x'] := by
  rw [px, String.toList_append]
  rfl

theorem getLast?_px (n : Int) : (px n).toList.getLast? = some 'x' := by
  rw [toList_px, List.getLast?_append]
  rfl

theorem px_ne {n : Int} {s : String} (h : s.toList.getLast? ≠ some 'x') : px n ≠ s := by
  rintro rfl
  exact h (getLast?_px n)

theorem parseInt_px {n : Int} (hlow : -2 ^ 31 ≤ n) (hhigh : n < 2 ^ 31) :
    parseInt (px n) = some n := by
  have hdrop : dropUnit (px n) = n.repr.toList := by
    rw [dropUnit, toList_px, List.length_append]
    exact List.take_left' (by simp)
  rw [parseInt, hdrop, readInt_repr, Option.filter_some, if_pos (by simpa using ⟨hlow, hhigh⟩)]

theorem parseValue_px {n : Int} (hlow : -2 ^ 31 ≤ n) (hhigh : n < 2 ^ 31) :
    parseValue (px n) = some n := by
  have hpx : hasUnit "px" (px n) = true := by
    rw [hasUnit, List.isSuffixOf_iff_suffix, toList_px]
    exact List.suffix_append _ _
  have hdp : hasUnit "dp" (px n) = false := by
    rw [← Bool.not_eq_true, hasUnit, List.isSuffixOf_iff_suffix]
    rintro ⟨front, h⟩
    have := congrArg List.getLast? h
    rw [getLast?_px, List.getLast?_append] at this
    cases this
  rw [parseValue, hdp, hpx, parseInt_px hlow hhigh]
  rfl

theorem mathRound_natCast {n : Nat} (h : n ≤ 2 ^ 24) : mathRound (n : ℚ) = n := by
  have hfloor : ⌊(n : ℚ) + 1 / 2⌋ = (n : Int) := by
    rw [Int.floor_eq_iff]
    constructor <;> push_cast <;> linarith
  rw [mathRound, hfloor]
  omega

/-- What a margin is read as, whether it is written or left out. -/
theorem getMargin_eq {view : Properties} {type : Anchor} {n : Int} (hlow : 0 ≤ n)
    (hhigh : n ≤ 2 ^ 24)
    (hview : view (marginName type) = if n = 0 then none else some (px n)) :
    getMargin view type = some n := by
  obtain ⟨m, rfl⟩ := Int.eq_ofNat_of_zero_le hlow
  have hm : m ≤ 2 ^ 24 := by exact_mod_cast hhigh
  rw [getMargin, parseEntry, hview]
  by_cases hzero : (m : Int) = 0
  · have hround : mathRound 0 = 0 := by exact_mod_cast mathRound_natCast (n := 0) (by decide)
    rw [if_pos hzero, Option.map_some, hround, hzero]
  · have hread : parseValue (px m) = some (m : Int) := parseValue_px (by omega) (by omega)
    have hfloat : toFloat ((m : Int) : ℚ) = m := by exact_mod_cast toFloat_natCast hm
    simp only [if_neg hzero, hread, Option.map_some, hfloat, mathRound_natCast hm]

theorem size_bounds (view : View Prob) (o : Orientation) :
    -2 ^ 31 ≤ view.size o ∧ view.size o < 2 ^ 31 := by
  have h (high low : Int) : -2 ^ 31 ≤ View.difference high low ∧
      View.difference high low < 2 ^ 31 := by
    have h₁ := Int.le_bmod (x := high - low) (m := 2 ^ 32) (by decide)
    have h₂ := Int.bmod_lt (x := high - low) (m := 2 ^ 32) (by decide)
    rw [View.difference]
    constructor
    · exact le_trans (by decide) h₁
    · exact lt_of_lt_of_le h₂ (by decide)
  cases o <;> exact h _ _

/-- The dimension that a size stands for. -/
def toDimension (value : Int) : ViewSize → ViewDimension
  | .matchParent => ⟨0, .matchParent⟩
  | .matchConstraint => ⟨0, .matchConstraint⟩
  | .fixed => ⟨value, .fixed⟩

theorem ofJson_px {n : Int} (hlow : -2 ^ 31 ≤ n) (hhigh : n < 2 ^ 31) :
    ViewDimension.ofJson (px n) = some ⟨n, .fixed⟩ := by
  have hparent : ¬ (px n = "match_parent" ∨ px n = "fill_parent") :=
    not_or.mpr ⟨px_ne (by decide), px_ne (by decide)⟩
  have hconstraint : ¬ (px n = "0dp" ∨ px n = "0dip") :=
    not_or.mpr ⟨px_ne (by decide), px_ne (by decide)⟩
  rw [ViewDimension.ofJson, if_neg hparent, if_neg hconstraint, parseValue_px hlow hhigh,
    Option.map_some]

theorem ofJson_viewSizeStr (size : ViewSize) {n : Int} (hlow : -2 ^ 31 ≤ n) (hhigh : n < 2 ^ 31) :
    ViewDimension.ofJson (viewSizeStr size n) = some (toDimension n size) := by
  cases size with
  | matchParent => rfl
  | matchConstraint => rfl
  | fixed => exact ofJson_px hlow hhigh

/-- A bias is read as it is, whether it is written or left out. -/
theorem readBias_eq {view : Properties} {name : String} {bias : ℚ} {k : ℤ}
    (hbias : bias = toFloat ((k : ℚ) / 10 ^ 6))
    (hview : view name = if bias = 1 / 2 then none else some (toFixed 6 bias)) :
    readBias view name (1 / 2) = some bias := by
  rw [readBias, hview]
  by_cases h : bias = 1 / 2
  · rw [if_pos h, h]
  · simp only [if_neg h, readDecimal_toFixed (by decide : 0 < 6), Option.map_some,
      toFloat_fixed hbias]

/-! ## What an attribute should be read as -/

/-- The anchor of the view and the anchor of the target that a type with one target ties. -/
def anchorsOf : ConstraintType → Option (Anchor × Anchor)
  | .l2l => some (.left, .left)
  | .l2r => some (.left, .right)
  | .r2l => some (.right, .left)
  | .r2r => some (.right, .right)
  | .t2t => some (.top, .top)
  | .t2b => some (.top, .bottom)
  | .b2t => some (.bottom, .top)
  | .b2b => some (.bottom, .bottom)
  | _ => none

/-- One of the anchors that the type of an attribute splits into, with its margin and target. -/
structure Half where
  type : ConstraintType
  margin : Int
  target : ViewPtr
  deriving DecidableEq, Repr

def Half.connection (half : Half) : Option Connection :=
  (anchorsOf half.type).map fun (anchor, targetAnchor) =>
    ⟨anchor, half.target.index, targetAnchor, half.margin⟩

namespace Attribute

/-- The start anchor with `value_primary`, the end anchor with `value_secondary`. -/
def halves (attr : Attribute Prob) : List Half :=
  attr.type.splitAnchor.1.toList.map (⟨·, attr.valuePrimary, attr.tgtPrimary⟩) ++
    attr.type.splitAnchor.2.toList.map
      (⟨·, attr.valueSecondary, attr.tgtSecondary.getD attr.tgtPrimary⟩)

def connections (attr : Attribute Prob) : List Connection := attr.halves.filterMap Half.connection

/-- An attribute of the app at address `a`, which has `n` views, as the emitter gets it. -/
structure Writable (attr : Attribute Prob) (a n : Nat) (o : Orientation) : Prop where
  orientation : attr.type.toOrientation = o
  primary : attr.tgtPrimary.app = a ∧ attr.tgtPrimary.index < n
  secondary : ∀ p, attr.tgtSecondary = some p → p.app = a ∧ p.index < n
  center : attr.tgtSecondary.isSome = attr.type.isCenterAnchor
  primaryMargin : 0 ≤ attr.valuePrimary ∧ attr.valuePrimary ≤ 2 ^ 24
  secondaryMargin : 0 ≤ attr.valueSecondary ∧ attr.valueSecondary ≤ 2 ^ 24
  /-- A type with one target has a margin on the side of its anchor only. -/
  ownSide : (attr.type.isTypeStart = some true → attr.valueSecondary = 0) ∧
    (attr.type.isTypeStart = some false → attr.valuePrimary = 0)
  bias : attr.type.isCenterAnchor = true → ∃ k : ℤ, attr.bias = toFloat ((k : ℚ) / 10 ^ 6)

end Attribute

/-- An app as the emitter gets it. -/
structure App.Writable (app : App Prob) (a : Nat) : Prop where
  distinct : (app.views.map (·.id)).Nodup
  idStrings : ∀ view ∈ app.views, view.idString = defaultIdString view.id
  attributes : ∀ view ∈ app.views, ∀ (o : Orientation) (attr : Attribute Prob),
    view.attributes o = some attr → attr.Writable a app.views.length o
  constrained : ∀ view ∈ app.views, view.id ≠ 0 → ∀ o, (view.attributes o).isSome = true

/-! ## What an attribute writes -/

/-- The string that a target is written as. -/
def reference (h : Heap Prob) (p : ViewPtr) : String :=
  ((h.view? p).map fun view => if view.id = 0 then "parent" else view.idString).getD ""

def Half.writes (h : Heap Prob) (half : Half) : List (Name × String) :=
  (constraintTypeToAttribute half.type).toList.map (·, reference h half.target) ++
    (constraintTypeToMargin half.type).toList.flatMap (writePx · half.margin)

/-- What an attribute writes, as one list. -/
def Attribute.written (h : Heap Prob) (attr : Attribute Prob) : List (Name × String) :=
  attr.halves.flatMap (Half.writes h) ++
    if attr.type.isCenterAnchor then writeBias attr.type attr.bias else []

theorem halfToProperties_eq {h : Heap Prob} {type : ConstraintType} {start : Bool}
    (htype : type.isTypeStart = some start) {value : Int} (hvalue : 0 ≤ value) {p : ViewPtr}
    {view : View Prob} (hview : h.view? p = some view) :
    halfToProperties type value view = some (Half.writes h ⟨type, value, p⟩) := by
  have hzero (name : Name) : writePx name 0 = [] := rfl
  have href : reference h p = if view.id = 0 then "parent" else view.idString := by
    rw [reference, hview]
    rfl
  cases type <;> cases htype <;>
    simp [halfToProperties, alignToProperties, Half.writes, ConstraintType.isTypeStart, hvalue,
      href, constraintTypeToAttribute, constraintTypeToMargin, hzero]

/-- A type with one target is written as its only half. -/
theorem alignToProperties_eq {type : ConstraintType} {start : Bool}
    (htype : type.isTypeStart = some start) {primary secondary : Int} (hp : 0 ≤ primary)
    (hs : 0 ≤ secondary) (hown : (if start then secondary else primary) = 0) (view : View Prob) :
    alignToProperties type primary secondary view =
      halfToProperties type (if start then primary else secondary) view := by
  cases start <;> simp_all [halfToProperties]

theorem splitAnchor_of_center {type : ConstraintType} (h : type.isCenterAnchor = true) :
    ∃ start «end», type.splitCenterAnchor = some (start, «end») ∧
      type.splitAnchor = (some start, some «end») ∧ start.isTypeStart = some true ∧
        «end».isTypeStart = some false := by
  cases type <;> first | (exact absurd h (by decide)) | exact ⟨_, _, rfl, rfl, rfl, rfl⟩

theorem splitAnchor_of_relational {type : ConstraintType} (h : ¬ type.isCenterAnchor = true) :
    (type.isTypeStart = some true ∧ type.splitAnchor = (some type, none)) ∨
      (type.isTypeStart = some false ∧ type.splitAnchor = (none, some type)) := by
  cases type <;> first
    | exact absurd (by decide) h
    | simp [ConstraintType.isTypeStart, ConstraintType.splitAnchor]

theorem exists_view {h : Heap Prob} {a : Nat} {p : ViewPtr}
    (hp : p.app = a ∧ p.index < (h a).views.length) : ∃ view, h.view? p = some view := by
  rw [Heap.view?, hp.1]
  exact ⟨_, List.getElem?_eq_getElem hp.2⟩

theorem toProperties_eq_written {h : Heap Prob} {attr : Attribute Prob} {a : Nat}
    {o : Orientation} (hattr : attr.Writable a (h a).views.length o) :
    attr.toProperties h = some (attr.written h) := by
  obtain ⟨view, hview⟩ := exists_view hattr.primary
  have hp := hattr.primaryMargin.1
  have hs := hattr.secondaryMargin.1
  unfold Attribute.toProperties Attribute.written
  by_cases hc : attr.type.isCenterAnchor = true
  · obtain ⟨q, hq⟩ := Option.isSome_iff_exists.mp (hattr.center.trans hc)
    obtain ⟨view', hview'⟩ := exists_view (hattr.secondary q hq)
    obtain ⟨start, «end», hsplit, hanchors, hstart, hend⟩ := splitAnchor_of_center hc
    simp [hc, Attribute.centerToProperties, hsplit, hview, hq, hview',
      halfToProperties_eq hstart hp hview, halfToProperties_eq hend hs hview',
      Attribute.halves, hanchors]
  · rcases splitAnchor_of_relational hc with ⟨htype, hanchors⟩ | ⟨htype, hanchors⟩
    · have halign := alignToProperties_eq htype hp hs (hattr.ownSide.1 htype) view
      simp [hc, hview, halign, halfToProperties_eq htype hp hview, Attribute.halves, hanchors]
    · have hnone : attr.tgtSecondary = none := by
        rw [← Option.not_isSome_iff_eq_none, hattr.center]
        exact hc
      have halign := alignToProperties_eq htype hp hs (hattr.ownSide.2 htype) view
      simp [hc, hview, halign, halfToProperties_eq htype hs hview, Attribute.halves, hanchors,
        hnone]

/-! ## What is found under a key -/

section Keys
variable {h : Heap Prob}

def typeOfAttribute : Name → Option ConstraintType
  | .layoutConstraintLeftToLeftOf => some .l2l
  | .layoutConstraintLeftToRightOf => some .l2r
  | .layoutConstraintRightToLeftOf => some .r2l
  | .layoutConstraintRightToRightOf => some .r2r
  | .layoutConstraintTopToTopOf => some .t2t
  | .layoutConstraintTopToBottomOf => some .t2b
  | .layoutConstraintBottomToTopOf => some .b2t
  | .layoutConstraintBottomToBottomOf => some .b2b
  | _ => none

def isStartMargin : Name → Option Bool
  | .layoutMarginLeft | .layoutMarginTop => some true
  | .layoutMarginRight | .layoutMarginBottom => some false
  | _ => none

theorem typeOfAttribute_eq {type : ConstraintType} {name : Name}
    (h : constraintTypeToAttribute type = some name) :
    typeOfAttribute name = some type ∧ isStartMargin name = none := by
  cases type <;> cases h <;> exact ⟨rfl, rfl⟩

theorem isStartMargin_eq {type : ConstraintType} {name : Name}
    (h : constraintTypeToMargin type = some name) :
    isStartMargin name = type.isTypeStart ∧ typeOfAttribute name = none ∧
      type.isTypeStart.isSome = true := by
  cases type <;> cases h <;> exact ⟨rfl, rfl, rfl⟩

theorem mem_writePx {name name' : Name} {value : Int} {s : String} :
    (name, s) ∈ writePx name' value ↔ value ≠ 0 ∧ name = name' ∧ s = px value := by
  rw [writePx]
  split <;> simp_all

theorem mem_writeBias {type : ConstraintType} {bias : ℚ} {name : Name} {s : String} :
    (name, s) ∈ writeBias type bias ↔
      bias ≠ 1 / 2 ∧ name = biasName type.toOrientation ∧ s = toFixed 6 bias := by
  rw [writeBias]
  split <;> simp_all

theorem mem_half_writes {half : Half} {name : Name} {s : String} :
    (name, s) ∈ half.writes h ↔
      (constraintTypeToAttribute half.type = some name ∧ s = reference h half.target) ∨
        (constraintTypeToMargin half.type = some name ∧ half.margin ≠ 0 ∧ s = px half.margin) := by
  rw [Half.writes, List.mem_append, List.mem_map, List.mem_flatMap]
  simp only [Option.mem_toList, Prod.mk.injEq, mem_writePx]
  constructor
  · rintro (⟨n, hn, rfl, rfl⟩ | ⟨n, hn, hne, rfl, rfl⟩)
    · exact Or.inl ⟨hn, rfl⟩
    · exact Or.inr ⟨hn, hne, rfl⟩
  · rintro (⟨hn, rfl⟩ | ⟨hn, hne, rfl⟩)
    · exact Or.inl ⟨name, hn, rfl, rfl⟩
    · exact Or.inr ⟨name, hn, hne, rfl, rfl⟩

/-- An attribute has at most one half with a start anchor and one with an end anchor. -/
theorem half_unique {attr : Attribute Prob} {half half' : Half} (h : half ∈ attr.halves)
    (h' : half' ∈ attr.halves) (heq : half.type.isTypeStart = half'.type.isTypeStart) :
    half = half' := by
  by_cases hc : attr.type.isCenterAnchor = true
  · obtain ⟨start, «end», -, hanchors, hstart, hend⟩ := splitAnchor_of_center hc
    simp only [Attribute.halves, hanchors, Option.toList_some, List.map_cons, List.map_nil,
      List.mem_append, List.mem_singleton] at h h'
    rcases h with rfl | rfl <;> rcases h' with rfl | rfl <;> simp_all
  · rcases splitAnchor_of_relational hc with ⟨-, hanchors⟩ | ⟨-, hanchors⟩ <;>
      simp_all [Attribute.halves]

theorem mem_written {attr : Attribute Prob} {name : Name} {s : String} :
    (name, s) ∈ attr.written h ↔ (∃ half ∈ attr.halves, (name, s) ∈ half.writes h) ∨
      (attr.type.isCenterAnchor = true ∧ attr.bias ≠ 1 / 2 ∧
        name = biasName attr.type.toOrientation ∧ s = toFixed 6 attr.bias) := by
  rw [Attribute.written, List.mem_append, List.mem_flatMap]
  split <;> simp_all [mem_writeBias]

theorem biasName_facts (o : Orientation) :
    typeOfAttribute (biasName o) = none ∧ isStartMargin (biasName o) = none := by
  cases o <;> exact ⟨rfl, rfl⟩

theorem mem_written_anchor {attr : Attribute Prob} {type : ConstraintType} {name : Name}
    (hname : constraintTypeToAttribute type = some name) {s : String} :
    (name, s) ∈ attr.written h ↔
      ∃ half ∈ attr.halves, half.type = type ∧ s = reference h half.target := by
  obtain ⟨htype, hmargin⟩ := typeOfAttribute_eq hname
  rw [mem_written]
  constructor
  · rintro (⟨half, hmem, hw⟩ | ⟨-, -, rfl, -⟩)
    · rcases mem_half_writes.mp hw with ⟨hn, rfl⟩ | ⟨hn, -⟩
      · refine ⟨half, hmem, ?_, rfl⟩
        have := (typeOfAttribute_eq hn).1
        rw [htype] at this
        exact (Option.some.inj this).symm
      · rw [(isStartMargin_eq hn).2.1] at htype
        cases htype
    · rw [(biasName_facts _).1] at htype
      cases htype
  · rintro ⟨half, hmem, rfl, rfl⟩
    exact Or.inl ⟨half, hmem, mem_half_writes.mpr (Or.inl ⟨hname, rfl⟩)⟩

theorem mem_written_margin {attr : Attribute Prob} {half : Half} (hmem : half ∈ attr.halves)
    {name : Name} (hname : constraintTypeToMargin half.type = some name) {s : String} :
    (name, s) ∈ attr.written h ↔ half.margin ≠ 0 ∧ s = px half.margin := by
  obtain ⟨hstart, htype, hsome⟩ := isStartMargin_eq hname
  rw [mem_written]
  constructor
  · rintro (⟨half', hmem', hw⟩ | ⟨-, -, rfl, -⟩)
    · rcases mem_half_writes.mp hw with ⟨hn, -⟩ | ⟨hn, hne, rfl⟩
      · rw [(typeOfAttribute_eq hn).1] at htype
        cases htype
      · have hsame : half' = half :=
          half_unique hmem' hmem ((isStartMargin_eq hn).1.symm.trans hstart)
        subst hsame
        exact ⟨hne, rfl⟩
    · rw [← hstart, (biasName_facts _).2] at hsome
      cases hsome
  · rintro ⟨hne, rfl⟩
    exact Or.inl ⟨half, hmem, mem_half_writes.mpr (Or.inr ⟨hname, hne, rfl⟩)⟩

theorem mem_written_bias {attr : Attribute Prob} {s : String} :
    (biasName attr.type.toOrientation, s) ∈ attr.written h ↔
      attr.type.isCenterAnchor = true ∧ attr.bias ≠ 1 / 2 ∧ s = toFixed 6 attr.bias := by
  rw [mem_written]
  constructor
  · rintro (⟨half, -, hw⟩ | ⟨hc, hb, -, rfl⟩)
    · rcases mem_half_writes.mp hw with ⟨hn, -⟩ | ⟨hn, -⟩
      · have := (typeOfAttribute_eq hn).1
        rw [(biasName_facts _).1] at this
        cases this
      · obtain ⟨hstart, -, hsome⟩ := isStartMargin_eq hn
        rw [← hstart, (biasName_facts _).2] at hsome
        cases hsome
    · exact ⟨hc, hb, rfl⟩
  · rintro ⟨hc, hb, rfl⟩
    exact Or.inr ⟨hc, hb, rfl, rfl⟩

/-- About an attribute a view writes what the attribute writes. -/
theorem mem_assigned {a : Nat} {view : View Prob} {order : List Orientation} {o : Orientation}
    {attr : Attribute Prob} {writes : List (Name × String)}
    (hwritable : ∀ o attr, view.attributes o = some attr →
      attr.Writable a (h a).views.length o)
    (horder : IsOrder order) (hattr : view.attributes o = some attr)
    (hw : view.assigned h order = some writes) {name : Name} (hslot : name.slot = .attribute o)
    {s : String} : (name, s) ∈ writes ↔ (name, s) ∈ attr.written h := by
  simp only [View.assigned, Option.bind_eq_bind, Option.bind_eq_some_iff, Option.pure_def,
    Option.some.injEq] at hw
  obtain ⟨sizes, hsizes, attributes, hattributes, rfl⟩ := hw
  rw [mapM_eq_some_iff] at hattributes
  simp only [List.cons_append, List.mem_cons, List.mem_append, List.mem_flatten]
  constructor
  · rintro (he | (hp | hs) | ⟨ws, hws, hmem⟩)
    · cases he
      cases hslot
    · have := (View.padding_names view.padding).2 name (List.mem_map_of_mem hp)
      rw [hslot] at this
      cases this
    · obtain ⟨_, hsize⟩ := (View.sizes_names horder.nodup hsizes).2 name (List.mem_map_of_mem hs)
      rw [hslot] at hsize
      cases hsize
    · have hws' : some ws ∈ (view.visit order).map fun e => e.2.toProperties h := by
        rw [hattributes]
        exact List.mem_map_of_mem hws
      obtain ⟨⟨o', attr'⟩, he, hwritten⟩ := List.mem_map.mp hws'
      obtain ⟨_, _, he⟩ := List.mem_filterMap.mp he
      obtain ⟨_, hattr', he⟩ := Option.map_eq_some_iff.mp he
      cases he
      have hw' := hwritable o' attr' hattr'
      have hown := slot_of_mem_namesOf
        ((Attribute.toProperties_names hwritten).subset (List.mem_map_of_mem hmem))
      rw [hslot, hw'.orientation, Slot.attribute.injEq] at hown
      subst hown
      rw [hattr] at hattr'
      cases hattr'
      rw [toProperties_eq_written hw'] at hwritten
      cases hwritten
      exact hmem
  · intro hmem
    have hvisit : (o, attr) ∈ view.visit order :=
      List.mem_filterMap.mpr ⟨o, horder.mem o, by rw [hattr, Option.map_some]⟩
    have hws : some (attr.written h) ∈ attributes.map some := by
      rw [← hattributes, ← toProperties_eq_written (hwritable o attr hattr)]
      exact List.mem_map_of_mem (f := fun e => e.2.toProperties h) hvisit
    obtain ⟨ws, hws, he⟩ := List.mem_map.mp hws
    exact Or.inr (Or.inr ⟨ws, hws, Option.some.inj he ▸ hmem⟩)

end Keys

/-! ## One view -/

section View
variable {h : Heap Prob} {a : Nat} {view : View Prob} {order : List Orientation}
  {writes : List (Name × String)}

theorem find_iff (hnodup : (writes.map (·.1)).Nodup) {name : Name} {s : String} :
    properties .outputXml writes (valuesOutput name) = some s ↔ (name, s) ∈ writes := by
  rw [properties_eq_some_iff hnodup]
  constructor
  · rintro ⟨name', hname, hmem⟩
    have := OutputType.outputXml.name_injective (m := name') (n := name) hname
    exact this ▸ hmem
  · intro hmem
    exact ⟨name, rfl, hmem⟩

theorem find_eq_none (hnodup : (writes.map (·.1)).Nodup) {name : Name}
    (h : ∀ s, (name, s) ∉ writes) : properties .outputXml writes (valuesOutput name) = none := by
  rw [Option.eq_none_iff_forall_ne_some]
  intro s hs
  exact h s ((find_iff hnodup).mp hs)

/-- An entry that is only written when `c` holds. -/
theorem find_eq_ite (hnodup : (writes.map (·.1)).Nodup) {name : Name} {c : Prop} [Decidable c]
    {value : String} (h : ∀ s, (name, s) ∈ writes ↔ ¬ c ∧ s = value) :
    properties .outputXml writes (valuesOutput name) = if c then none else some value := by
  split
  · rename_i hc
    exact find_eq_none hnodup fun s hs => ((h s).mp hs).1 hc
  · rename_i hc
    exact (find_iff hnodup).mpr ((h value).mpr ⟨hc, rfl⟩)

/-- No name is a chain style. -/
theorem find_chainStyle (hnodup : (writes.map (·.1)).Nodup) {key : String}
    (hkey : ∀ name : Name, valuesOutput name ≠ key) : properties .outputXml writes key = none := by
  rw [Option.eq_none_iff_forall_ne_some]
  intro s hs
  obtain ⟨name, hname, -⟩ := (properties_eq_some_iff hnodup).mp hs
  exact hkey name hname

theorem chainStyle_ne (name : Name) :
    valuesOutput name ≠ "app:layout_constraintVertical_chainStyle" ∧
      valuesOutput name ≠ "app:layout_constraintHorizontal_chainStyle" := by
  cases name <;> decide

/-- The connection that an attribute asks for with an anchor of this type. -/
def Attribute.found (attr : Attribute Prob) (type : ConstraintType) : Option Connection :=
  (attr.halves.find? fun half => half.type == type).bind Half.connection

theorem type_facts {type : ConstraintType} {name : Name} {anchor targetAnchor : Anchor}
    (hname : constraintTypeToAttribute type = some name)
    (hanchors : anchorsOf type = some (anchor, targetAnchor)) :
    name.slot = .attribute type.toOrientation ∧ ∃ margin,
      constraintTypeToMargin type = some margin ∧ margin.slot = .attribute type.toOrientation ∧
        marginName anchor = valuesOutput margin := by
  cases type <;> cases hname <;> cases hanchors <;> exact ⟨rfl, _, rfl, rfl, rfl⟩

theorem half_margin_bounds {attr : Attribute Prob} {n : Nat} {o : Orientation}
    (hattr : attr.Writable a n o) {half : Half} (hmem : half ∈ attr.halves) :
    0 ≤ half.margin ∧ half.margin ≤ 2 ^ 24 := by
  simp only [Attribute.halves, List.mem_append, List.mem_map] at hmem
  rcases hmem with ⟨_, _, rfl⟩ | ⟨_, _, rfl⟩
  · exact hattr.primaryMargin
  · exact hattr.secondaryMargin

theorem half_target {attr : Attribute Prob} {n : Nat} {o : Orientation}
    (hattr : attr.Writable a n o) {half : Half} (hmem : half ∈ attr.halves) :
    half.target.app = a ∧ half.target.index < n := by
  simp only [Attribute.halves, List.mem_append, List.mem_map] at hmem
  rcases hmem with ⟨_, _, rfl⟩ | ⟨_, _, rfl⟩
  · exact hattr.primary
  · cases hs : attr.tgtSecondary with
    | none => exact hattr.primary
    | some q => exact hattr.secondary q hs

/-- Each of the eight lookups of `AddConstraints` finds what the attribute of its orientation
asks for. -/
theorem addConstraint_eq (hwritable : ∀ o attr, view.attributes o = some attr →
      attr.Writable a (h a).views.length o)
    (horder : IsOrder order) (hw : view.assigned h order = some writes)
    (hnodup : (writes.map (·.1)).Nodup) {table : WidgetTable}
    (htable : ∀ p : ViewPtr, p.app = a → p.index < (h a).views.length →
      table (reference h p) = some p.index)
    {type : ConstraintType} {name : Name} {anchor targetAnchor : Anchor}
    (hname : constraintTypeToAttribute type = some name)
    (hanchors : anchorsOf type = some (anchor, targetAnchor)) {attr : Attribute Prob}
    (hattr : view.attributes type.toOrientation = some attr) (widget : Widget) :
    addConstraint table (properties .outputXml writes) widget
        (valuesOutput name, anchor, targetAnchor) =
      some { widget with connections := widget.connections ++ (attr.found type).toList } := by
  obtain ⟨hslot, margin, hmargin, hmarginSlot, hkey⟩ := type_facts hname hanchors
  have hwattr := hwritable _ _ hattr
  have hanchor (s : String) : (name, s) ∈ writes ↔
      ∃ half ∈ attr.halves, half.type = type ∧ s = reference h half.target := by
    rw [mem_assigned hwritable horder hattr hw hslot, mem_written_anchor hname]
  cases hfind : attr.halves.find? fun half => half.type == type with
  | none =>
    have hnone : ∀ s, (name, s) ∉ writes := by
      intro s hs
      obtain ⟨half, hmem, htype, -⟩ := (hanchor s).mp hs
      have := List.find?_eq_none.mp hfind half hmem
      simp [htype] at this
    rw [addConstraint, find_eq_none hnodup hnone, Attribute.found, hfind]
    simp
  | some half =>
    have hmem := List.mem_of_find?_eq_some hfind
    have htype : half.type = type := by simpa using List.find?_some hfind
    subst htype
    have hfound : properties .outputXml writes (valuesOutput name) =
        some (reference h half.target) :=
      (find_iff hnodup).mpr ((hanchor _).mpr ⟨half, hmem, rfl, rfl⟩)
    have hread : getMargin (properties .outputXml writes) anchor = some half.margin := by
      obtain ⟨hlow, hhigh⟩ := half_margin_bounds hwattr hmem
      apply getMargin_eq hlow hhigh
      rw [hkey]
      apply find_eq_ite hnodup
      intro s
      rw [mem_assigned hwritable horder hattr hw hmarginSlot, mem_written_margin hmem hmargin]
    obtain ⟨happ, hlt⟩ := half_target hwattr hmem
    simp [addConstraint, hfound, htable _ happ hlt, hread, Attribute.found, hfind,
      Half.connection, hanchors]

/-- The types with one target in the order of `AddConstraints`. -/
def relationalTypes (o : Orientation) : List ConstraintType :=
  match o with
  | .horizontal => [.r2r, .r2l, .l2r, .l2l]
  | .vertical => [.t2t, .t2b, .b2t, .b2b]

/-- The entry that `AddConstraints` looks for with a type. -/
def entryOf (type : ConstraintType) : Option (String × Anchor × Anchor) :=
  (constraintTypeToAttribute type).bind fun name =>
    (anchorsOf type).map fun anchors => (valuesOutput name, anchors)

theorem constraints_eq : constraints =
    (relationalTypes .horizontal).filterMap entryOf ++
      (relationalTypes .vertical).filterMap entryOf := by
  decide

/-- The lookups along one orientation find what the attribute asks for, in some order. -/
theorem filterMap_found {attr : Attribute Prob} {n : Nat} {o : Orientation}
    (hattr : attr.Writable a n o) :
    ((relationalTypes o).filterMap attr.found).Perm attr.connections := by
  have ho := hattr.orientation
  subst ho
  obtain ⟨type, viewSize, vp, vs, src, tp, ts, prob, bias⟩ := attr
  cases type <;> first | exact List.Perm.refl _ | exact List.Perm.swap _ _ _

theorem foldlM_addConstraint (hwritable : ∀ o attr, view.attributes o = some attr →
      attr.Writable a (h a).views.length o)
    (horder : IsOrder order) (hw : view.assigned h order = some writes)
    (hnodup : (writes.map (·.1)).Nodup) {table : WidgetTable}
    (htable : ∀ p : ViewPtr, p.app = a → p.index < (h a).views.length →
      table (reference h p) = some p.index)
    {attr : Attribute Prob} {o : Orientation} (hattr : view.attributes o = some attr)
    (types : List ConstraintType)
    (htypes : ∀ type ∈ types, type.toOrientation = o ∧ (entryOf type).isSome = true)
    (widget : Widget) :
    (types.filterMap entryOf).foldlM (addConstraint table (properties .outputXml writes)) widget =
      some { widget with connections := widget.connections ++ types.filterMap attr.found } := by
  induction types generalizing widget with
  | nil => simp
  | cons type types ih =>
    obtain ⟨⟨ho, hsome⟩, htypes⟩ := List.forall_mem_cons.mp htypes
    subst ho
    obtain ⟨entry, hentry⟩ := Option.isSome_iff_exists.mp hsome
    obtain ⟨name, hname, anchors, hanchors, rfl⟩ :
        ∃ name, constraintTypeToAttribute type = some name ∧
          ∃ anchors, anchorsOf type = some anchors ∧ (valuesOutput name, anchors) = entry := by
      simpa [entryOf, Option.bind_eq_some_iff, Option.map_eq_some_iff] using hentry
    have hstep := addConstraint_eq hwritable horder hw hnodup htable hname hanchors hattr widget
    rw [List.filterMap_cons_some hentry, List.foldlM_cons, hstep, Option.bind_eq_bind,
      Option.bind_some, ih htypes]
    cases hfound : attr.found type with
    | none => simp [List.filterMap_cons_none hfound]
    | some connection => simp [List.filterMap_cons_some hfound]

theorem readBias_written (hwritable : ∀ o attr, view.attributes o = some attr →
      attr.Writable a (h a).views.length o)
    (horder : IsOrder order) (hw : view.assigned h order = some writes)
    (hnodup : (writes.map (·.1)).Nodup) {attr : Attribute Prob} {o : Orientation}
    (hattr : view.attributes o = some attr) :
    readBias (properties .outputXml writes) (valuesOutput (biasName o)) (1 / 2) =
      some (if attr.type.isCenterAnchor then attr.bias else 1 / 2) := by
  have hwattr := hwritable o attr hattr
  have hslot : (biasName o).slot = .attribute o := by cases o <;> rfl
  have hbias (s : String) : (biasName o, s) ∈ writes ↔
      attr.type.isCenterAnchor = true ∧ attr.bias ≠ 1 / 2 ∧ s = toFixed 6 attr.bias := by
    have horient := hwattr.orientation
    subst horient
    rw [mem_assigned hwritable horder hattr hw hslot, mem_written_bias]
  by_cases hc : attr.type.isCenterAnchor = true
  · obtain ⟨k, hk⟩ := hwattr.bias hc
    rw [if_pos hc]
    apply readBias_eq hk
    apply find_eq_ite hnodup
    intro s
    rw [hbias, and_iff_right hc]
  · rw [if_neg hc, readBias, find_eq_none hnodup fun s hs => hc ((hbias s).mp hs).1]

/-- The size that is written along an orientation. -/
def View.writtenSize (view : View Prob) (o : Orientation) : String :=
  if view.isContentFrame then px (view.size o)
  else match view.attributes o with
    | some attr => viewSizeStr attr.viewSize (view.size o)
    | none => ""

theorem mem_assigned_size (horder : IsOrder order)
    (hconstrained : view.isContentFrame = false → ∀ o, (view.attributes o).isSome = true)
    (hw : view.assigned h order = some writes) (o : Orientation) :
    (sizeName o, view.writtenSize o) ∈ writes := by
  simp only [View.assigned, Option.bind_eq_bind, Option.bind_eq_some_iff, Option.pure_def,
    Option.some.injEq] at hw
  obtain ⟨sizes, hsizes, attributes, -, rfl⟩ := hw
  have hmem : (sizeName o, view.writtenSize o) ∈ sizes := by
    unfold View.sizesToProperties at hsizes
    unfold View.writtenSize
    cases hroot : view.isContentFrame with
    | true =>
      rw [if_pos hroot] at hsizes
      cases Option.some.inj hsizes
      cases o <;> simp [sizeName]
    | false =>
      rw [hroot, if_neg (by decide), Option.ite_none_right_eq_some] at hsizes
      obtain ⟨-, hsizes⟩ := hsizes
      obtain ⟨attr, hattr⟩ := Option.isSome_iff_exists.mp (hconstrained hroot o)
      have hvisit : (o, attr) ∈ view.visit order :=
        List.mem_filterMap.mpr ⟨o, horder.mem o, by rw [hattr, Option.map_some]⟩
      cases Option.some.inj hsizes
      simp only [hattr]
      exact List.mem_map.mpr ⟨(o, attr), hvisit, rfl⟩
  simp [hmem]

/-- The dimension that a view should get along an orientation. -/
def View.dimension (view : View Prob) (o : Orientation) : ViewDimension :=
  if view.isContentFrame then ⟨view.size o, .fixed⟩
  else match view.attributes o with
    | some attr => toDimension (view.size o) attr.viewSize
    | none => ⟨0, .fixed⟩

theorem ofJson_writtenSize
    (hconstrained : view.isContentFrame = false → ∀ o, (view.attributes o).isSome = true)
    (o : Orientation) :
    ViewDimension.ofJson (view.writtenSize o) = some (view.dimension o) := by
  obtain ⟨hlow, hhigh⟩ := size_bounds view o
  unfold View.writtenSize View.dimension
  cases hroot : view.isContentFrame with
  | true => exact ofJson_px hlow hhigh
  | false =>
    obtain ⟨attr, hattr⟩ := Option.isSome_iff_exists.mp (hconstrained hroot o)
    simp only [hattr]
    exact ofJson_viewSizeStr attr.viewSize hlow hhigh

/-- The widget that `GetWidgets` makes. -/
def View.widget (view : View Prob) : Widget where
  width := (view.dimension .horizontal).value
  height := (view.dimension .vertical).value
  horizontalDimensionBehaviour := (view.dimension .horizontal).behaviour
  verticalDimensionBehaviour := (view.dimension .vertical).behaviour
  debugName := view.idString
  horizontalBiasPercent := 1 / 2
  verticalBiasPercent := 1 / 2

theorem find_id (hnodup : (writes.map (·.1)).Nodup) (hw : view.assigned h order = some writes) :
    properties .outputXml writes "android:id" = some view.idString := by
  have hmem : (Name.id, view.idString) ∈ writes := by
    simp only [View.assigned, Option.bind_eq_bind, Option.bind_eq_some_iff, Option.pure_def,
      Option.some.injEq] at hw
    obtain ⟨sizes, -, attributes, -, rfl⟩ := hw
    simp
  exact (find_iff hnodup).mpr hmem

theorem getWidget_eq (horder : IsOrder order)
    (hconstrained : view.isContentFrame = false → ∀ o, (view.attributes o).isSome = true)
    (hnodup : (writes.map (·.1)).Nodup) (hw : view.assigned h order = some writes) :
    getWidget (1 / 2) (properties .outputXml writes) = some view.widget := by
  have hwidth : properties .outputXml writes "android:layout_width" =
      some (view.writtenSize .horizontal) :=
    (find_iff hnodup).mpr (mem_assigned_size horder hconstrained hw .horizontal)
  have hheight : properties .outputXml writes "android:layout_height" =
      some (view.writtenSize .vertical) :=
    (find_iff hnodup).mpr (mem_assigned_size horder hconstrained hw .vertical)
  simp [getWidget, hwidth, hheight, ofJson_writtenSize hconstrained, find_id hnodup hw, View.widget]

/-- What `AddConstraints` makes of the widget of a view with both attributes. -/
theorem addConstraints_eq (hwritable : ∀ o attr, view.attributes o = some attr →
      attr.Writable a (h a).views.length o)
    (horder : IsOrder order) (hw : view.assigned h order = some writes)
    (hnodup : (writes.map (·.1)).Nodup) {table : WidgetTable}
    (htable : ∀ p : ViewPtr, p.app = a → p.index < (h a).views.length →
      table (reference h p) = some p.index)
    {horizontal vertical : Attribute Prob}
    (hhorizontal : view.attributes .horizontal = some horizontal)
    (hvertical : view.attributes .vertical = some vertical) :
    addConstraints view.widget (properties .outputXml writes) table = some { view.widget with
      horizontalBiasPercent := if horizontal.type.isCenterAnchor then horizontal.bias else 1 / 2
      verticalBiasPercent := if vertical.type.isCenterAnchor then vertical.bias else 1 / 2
      connections := (relationalTypes .horizontal).filterMap horizontal.found ++
        (relationalTypes .vertical).filterMap vertical.found } := by
  have hchain : addChainStyles (properties .outputXml writes) view.widget = view.widget := by
    simp [addChainStyles, find_chainStyle hnodup fun name => (chainStyle_ne name).1,
      find_chainStyle hnodup fun name => (chainStyle_ne name).2, View.widget]
  have hbiases : addBiases (properties .outputXml writes) view.widget = some { view.widget with
      horizontalBiasPercent := if horizontal.type.isCenterAnchor then horizontal.bias else 1 / 2
      verticalBiasPercent := if vertical.type.isCenterAnchor then vertical.bias else 1 / 2 } := by
    have hh := readBias_written hwritable horder hw hnodup hhorizontal
    have hv := readBias_written hwritable horder hw hnodup hvertical
    simp only [valuesOutput, biasName] at hh hv
    simp only [addBiases, View.widget, hh, hv, Option.bind_eq_bind, Option.bind_some,
      Option.pure_def]
  have hfold (o : Orientation) {attr : Attribute Prob} (hattr : view.attributes o = some attr)
      (widget : Widget) :=
    foldlM_addConstraint hwritable horder hw hnodup htable hattr (relationalTypes o)
      (by cases o <;> decide) widget
  rw [addConstraints, hchain, hbiases, Option.bind_eq_bind, Option.bind_some, constraints_eq,
    List.foldlM_append, hfold .horizontal hhorizontal, Option.bind_eq_bind, Option.bind_some,
    hfold .vertical hvertical]
  simp [View.widget]

end View

/-! ## All views -/

section App
variable {h : Heap Prob} {a : Nat}

/-- Different ids have different id strings. -/
theorem defaultIdString_injective {id id' : Int} (heq : defaultIdString id = defaultIdString id') :
    id = id' := by
  have hne (n : Int) : "@+id/view" ++ n.repr ≠ "parent" := by
    intro he
    have := congrArg (·.toList.head?) he
    simp [String.toList_append] at this
  unfold defaultIdString at heq
  split at heq <;> split at heq
  · omega
  · exact absurd heq.symm (hne id')
  · exact absurd heq (hne id)
  · exact repr_injective ((String.append_right_inj _).mp heq)

theorem App.Writable.reference_eq (hw : (h a).Writable a) {p : ViewPtr} (hp : p.app = a)
    (hlt : p.index < (h a).views.length) : reference h p = ((h a).views[p.index]).idString := by
  have hview : h.view? p = some (h a).views[p.index] := by
    rw [Heap.view?, hp, List.getElem?_eq_getElem hlt]
  have hid := hw.idStrings _ (List.getElem_mem hlt)
  rw [reference, hview, Option.map_some, Option.getD_some]
  split
  · rename_i hzero
    rw [hid, defaultIdString, if_pos hzero]
  · rfl

/-- The names put into a table leave the entries of other names alone. -/
theorem foldl_table_of_notMem {entries : List (Widget × Nat)} {name : String}
    (h : ∀ entry ∈ entries, entry.1.debugName ≠ name) (table : WidgetTable) :
    entries.foldl putWidget table name = table name := by
  induction entries generalizing table with
  | nil => rfl
  | cons entry entries ih =>
    obtain ⟨hne, h⟩ := List.forall_mem_cons.mp h
    rw [List.foldl_cons, ih h, putWidget, Function.update_of_ne hne.symm]

/-- A table finds what was put under a name when nothing else was. -/
theorem foldl_table {entries : List (Widget × Nat)}
    (hnodup : (entries.map (·.1.debugName)).Nodup) {entry : Widget × Nat} (hmem : entry ∈ entries)
    (table : WidgetTable) :
    entries.foldl putWidget table entry.1.debugName = some entry.2 := by
  induction entries generalizing table with
  | nil => cases hmem
  | cons entry' entries ih =>
    obtain ⟨hnew, hnodup⟩ := List.nodup_cons.mp hnodup
    rw [List.foldl_cons]
    rcases List.mem_cons.mp hmem with rfl | hmem
    · rw [foldl_table_of_notMem, putWidget, Function.update_self]
      intro other hother hname
      exact hnew (List.mem_map.mpr ⟨other, hother, hname⟩)
    · exact ih hnodup hmem _

/-- What the loop does to the widget of view `i`. -/
def Connects (table : WidgetTable) (i : Nat) (view : Properties) (before after : Widget) : Prop :=
  ∃ id, view "android:id" = some id ∧ ((id = "parent" ∧ after = before) ∨
    (id ≠ "parent" ∧ table id = some i ∧ addConstraints before view table = some after))

/-- The loop that connects the widgets, where `done` are behind it. -/
theorem foldlM_connectView {table : WidgetTable} (done : List Widget)
    {rest : List (Properties × Widget × Widget)}
    (hrest : ∀ (k : Nat) (entry : Properties × Widget × Widget), rest[k]? = some entry →
      Connects table (done.length + k) entry.1 entry.2.1 entry.2.2) :
    (rest.map (·.1)).foldlM (connectView table) (done ++ rest.map (·.2.1)) =
      some (done ++ rest.map (·.2.2)) := by
  induction rest generalizing done with
  | nil => simp
  | cons entry rest ih =>
    obtain ⟨view, before, after⟩ := entry
    have hfirst : Connects table done.length view before after := hrest 0 _ rfl
    obtain ⟨id, hid, hafter⟩ := hfirst
    have hstep : connectView table (done ++ before :: rest.map (·.2.1)) view =
        some (done ++ after :: rest.map (·.2.1)) := by
      rw [connectView, hid, Option.bind_eq_bind, Option.bind_some]
      rcases hafter with ⟨rfl, rfl⟩ | ⟨hne, hfound, hconnect⟩
      · rfl
      · simp [hne, hfound, hconnect]
    have hrest' (k : Nat) (entry : Properties × Widget × Widget) (hk : rest[k]? = some entry) :
        Connects table ((done ++ [after]).length + k) entry.1 entry.2.1 entry.2.2 := by
      have := hrest (k + 1) entry (by simpa using hk)
      simpa [Nat.add_assoc, Nat.add_comm 1] using this
    have := ih (done ++ [after]) hrest'
    simp only [List.append_assoc, List.singleton_append] at this
    simp only [List.map_cons, List.foldlM_cons, hstep, Option.bind_eq_bind, Option.bind_some, this]

theorem defaultIdString_eq_parent {id : Int} : defaultIdString id = "parent" ↔ id = 0 :=
  ⟨fun h => defaultIdString_injective (h.trans rfl), fun h => by rw [defaultIdString, if_pos h]⟩

/-- The emitter fails no `CHECK` on such an app. -/
theorem exists_assigned {view : View Prob} (hwritable : ∀ o attr, view.attributes o = some attr →
      attr.Writable a (h a).views.length o)
    (hconstrained : view.isContentFrame = false → ∀ o, (view.attributes o).isSome = true)
    {order : List Orientation} (horder : IsOrder order) :
    ∃ writes, view.assigned h order = some writes := by
  have hsizes : ∃ sizes, view.sizesToProperties order = some sizes := by
    unfold View.sizesToProperties
    cases hroot : view.isContentFrame with
    | true => exact ⟨_, rfl⟩
    | false =>
      have hlength : (view.visit order).length = 2 := by
        rw [← List.length_map (f := (·.1)), View.visit_fst,
          List.filter_eq_self.mpr fun o _ => hconstrained hroot o, horder.length_eq]
        rfl
      rw [if_neg (by decide), if_pos hlength]
      exact ⟨_, rfl⟩
  have hattributes : (view.visit order).mapM (fun e => e.2.toProperties h) =
      some ((view.visit order).map fun e => e.2.written h) := by
    rw [mapM_eq_some_iff, List.map_map]
    apply List.map_congr_left
    rintro ⟨o, attr⟩ he
    obtain ⟨o', _, he⟩ := List.mem_filterMap.mp he
    obtain ⟨attr', hattr, he⟩ := Option.map_eq_some_iff.mp he
    cases he
    exact toProperties_eq_written (hwritable _ _ hattr)
  obtain ⟨sizes, hsizes⟩ := hsizes
  exact ⟨_, by rw [View.assigned, hsizes, hattributes]; rfl⟩

/-- The widget that the solver gets. -/
def View.rendered (view : View Prob) : Widget :=
  match view.isContentFrame, view.attributes .horizontal, view.attributes .vertical with
  | false, some horizontal, some vertical => { view.widget with
      horizontalBiasPercent := if horizontal.type.isCenterAnchor then horizontal.bias else 1 / 2
      verticalBiasPercent := if vertical.type.isCenterAnchor then vertical.bias else 1 / 2
      connections := (relationalTypes .horizontal).filterMap horizontal.found ++
        (relationalTypes .vertical).filterMap vertical.found }
  | _, _, _ => view.widget

/-- The widget shows the view: its dimensions, the connections of its attributes and no other
one, and the bias of each centering type. -/
structure Renders (view : View Prob) (widget : Widget) : Prop where
  debugName : widget.debugName = view.idString
  horizontal : ⟨widget.width, widget.horizontalDimensionBehaviour⟩ = view.dimension .horizontal
  vertical : ⟨widget.height, widget.verticalDimensionBehaviour⟩ = view.dimension .vertical
  connections : widget.connections.Perm (if view.isContentFrame then [] else
    [Orientation.horizontal, .vertical].flatMap fun o =>
      (view.attributes o).toList.flatMap Attribute.connections)
  horizontalBias : view.isContentFrame = false → ∀ attr,
    view.attributes .horizontal = some attr → attr.type.isCenterAnchor = true →
      widget.horizontalBiasPercent = attr.bias
  verticalBias : view.isContentFrame = false → ∀ attr,
    view.attributes .vertical = some attr → attr.type.isCenterAnchor = true →
      widget.verticalBiasPercent = attr.bias

theorem renders_rendered {view : View Prob} {n : Nat}
    (hwritable : ∀ o attr, view.attributes o = some attr → attr.Writable a n o)
    (hconstrained : view.isContentFrame = false → ∀ o, (view.attributes o).isSome = true) :
    Renders view view.rendered := by
  cases hroot : view.isContentFrame with
  | true =>
    have hrendered : view.rendered = view.widget := by rw [View.rendered, hroot]
    rw [hrendered]
    exact ⟨rfl, rfl, rfl, by rw [hroot]; exact List.Perm.refl _,
      fun hf => absurd hroot (by rw [hf]; decide), fun hf => absurd hroot (by rw [hf]; decide)⟩
  | false =>
    obtain ⟨horizontal, hh⟩ := Option.isSome_iff_exists.mp (hconstrained hroot .horizontal)
    obtain ⟨vertical, hv⟩ := Option.isSome_iff_exists.mp (hconstrained hroot .vertical)
    have hconnections := (filterMap_found (hwritable .horizontal _ hh)).append
      (filterMap_found (hwritable .vertical _ hv))
    rw [View.rendered, hroot, hh, hv]
    refine ⟨rfl, rfl, rfl, ?_, fun _ attr hattr hc => ?_, fun _ attr hattr hc => ?_⟩
    · rw [hroot]
      simpa [hh, hv] using hconnections
    · cases hh.symm.trans hattr
      simp [hc]
    · cases hv.symm.trans hattr
      simp [hc]

/-- The loop makes of a view's widget the one that shows it. -/
theorem connects_rendered (hw : (h a).Writable a) {order : List Orientation}
    (horder : IsOrder order) {table : WidgetTable}
    (htable : ∀ (i : Nat) (view : View Prob), (h a).views[i]? = some view →
      table view.idString = some i) {i : Nat} {view : View Prob}
    (hview : (h a).views[i]? = some view) {writes : List (Name × String)}
    (hwrites : view.assigned h order = some writes) (hnodup : (writes.map (·.1)).Nodup) :
    Connects table i (properties .outputXml writes) view.widget view.rendered := by
  have hmem := List.mem_of_getElem? hview
  refine ⟨view.idString, find_id hnodup hwrites, ?_⟩
  have hparent : view.idString = "parent" ↔ view.id = 0 := by
    rw [hw.idStrings view hmem, defaultIdString_eq_parent]
  by_cases hroot : view.id = 0
  · have hframe : view.isContentFrame = true := decide_eq_true hroot
    exact Or.inl ⟨hparent.mpr hroot, by rw [View.rendered, hframe]⟩
  · have hframe : view.isContentFrame = false := decide_eq_false hroot
    obtain ⟨horizontal, hh⟩ :=
      Option.isSome_iff_exists.mp (hw.constrained view hmem hroot .horizontal)
    obtain ⟨vertical, hv⟩ := Option.isSome_iff_exists.mp (hw.constrained view hmem hroot .vertical)
    have htable' (p : ViewPtr) (hp : p.app = a) (hlt : p.index < (h a).views.length) :
        table (reference h p) = some p.index := by
      rw [hw.reference_eq hp hlt]
      exact htable p.index _ (List.getElem?_eq_getElem hlt)
    refine Or.inr ⟨fun he => hroot (hparent.mp he), htable i view hview, ?_⟩
    rw [addConstraints_eq (hw.attributes view hmem) horder hwrites hnodup htable' hh hv,
      View.rendered, hframe, hh, hv]

theorem App.Writable.isSome (hw : (h a).Writable a) {view : View Prob}
    (hmem : view ∈ (h a).views) (hroot : view.isContentFrame = false) (o : Orientation) :
    (view.attributes o).isSome = true :=
  hw.constrained view hmem (of_decide_eq_false hroot) o

theorem App.Writable.assigned (hw : (h a).Writable a) {order : List Orientation}
    (horder : IsOrder order) {view : View Prob} (hmem : view ∈ (h a).views) :
    ∃ writes, view.assigned h order = some writes ∧ (writes.map (·.1)).Nodup := by
  obtain ⟨writes, hwrites⟩ := exists_assigned (hw.attributes view hmem) (hw.isSome hmem) horder
  exact ⟨writes, hwrites, View.assigned_nodup
    (fun o attr hattr => (hw.attributes view hmem o attr hattr).orientation) horder.nodup hwrites⟩

theorem App.Writable.names_nodup (hw : (h a).Writable a) :
    (((h a).views.map View.widget).zipIdx.map (·.1.debugName)).Nodup := by
  have hstrings : ((h a).views.map View.widget).zipIdx.map (·.1.debugName) =
      ((h a).views.map (·.id)).map defaultIdString := by
    have hfst : (fun e : Widget × Nat => e.1.debugName) = (·.debugName) ∘ (·.1) := rfl
    rw [hfst, ← List.map_map, List.zipIdx_map_fst, List.map_map, List.map_map]
    apply List.map_congr_left
    intro view hmem
    exact hw.idStrings view hmem
  rw [hstrings]
  exact hw.distinct.map fun _ _ => defaultIdString_injective

/-- For each view the properties that are written, its widget in `GetWidgets` and that widget once
it is connected. -/
def rows (h : Heap Prob) (a : Nat) (order : Nat → List Orientation) :
    List (Properties × Widget × Widget) :=
  (h a).views.zipIdx.map fun e =>
    (properties .outputXml ((e.1.assigned h (order e.2)).getD []), e.1.widget, e.1.rendered)

theorem rows_widgets (order : Nat → List Orientation) :
    (rows h a order).map (·.2.1) = (h a).views.map View.widget := by
  rw [rows, List.map_map, ← List.zipIdx_map_fst 0 (h a).views, List.map_map, List.zipIdx_map_fst]
  rfl

theorem rows_rendered (order : Nat → List Orientation) :
    (rows h a order).map (·.2.2) = (h a).views.map View.rendered := by
  rw [rows, List.map_map, ← List.zipIdx_map_fst 0 (h a).views, List.map_map, List.zipIdx_map_fst]
  rfl

section Rows
variable {order : Nat → List Orientation}

theorem App.Writable.row (hw : (h a).Writable a) (horder : ∀ i, IsOrder (order i))
    {e : View Prob × Nat} (he : e ∈ (h a).views.zipIdx) : ∃ writes,
      e.1.assigned h (order e.2) = some writes ∧ (writes.map (·.1)).Nodup :=
  hw.assigned (horder e.2) (List.mem_of_getElem? (List.mem_zipIdx_iff_getElem?.mp he))

theorem App.Writable.emitted (hw : (h a).Writable a) (horder : ∀ i, IsOrder (order i)) :
    ((h a).views.zipIdx.mapM fun e => e.1.toProperties h .outputXml (order e.2)) =
      some ((rows h a order).map (·.1)) := by
  rw [mapM_eq_some_iff, rows, List.map_map, List.map_map]
  apply List.map_congr_left
  intro e he
  obtain ⟨writes, hwrites, -⟩ := hw.row horder he
  simp [View.toProperties, hwrites]

theorem App.Writable.getWidgets (hw : (h a).Writable a) (horder : ∀ i, IsOrder (order i)) :
    ((rows h a order).map (·.1)).mapM (getWidget (1 / 2)) = some ((rows h a order).map (·.2.1)) := by
  rw [mapM_eq_some_iff, rows]
  simp only [List.map_map]
  apply List.map_congr_left
  intro e he
  obtain ⟨writes, hwrites, hnodup⟩ := hw.row horder he
  have hmem : e.1 ∈ (h a).views := List.mem_of_getElem? (List.mem_zipIdx_iff_getElem?.mp he)
  have hwidget := getWidget_eq (horder e.2) (hw.isSome hmem) hnodup hwrites
  simpa [hwrites] using hwidget

/-- The name of each view leads to its index. -/
theorem App.Writable.table (hw : (h a).Writable a) (i : Nat) (view : View Prob)
    (hview : (h a).views[i]? = some view) :
    (((h a).views.map View.widget).zipIdx.foldl putWidget fun _ => none) view.idString =
      some i := by
  have hmem : (view.widget, i) ∈ ((h a).views.map View.widget).zipIdx := by
    rw [List.mem_zipIdx_iff_getElem?, List.getElem?_map, hview, Option.map_some]
  exact foldl_table hw.names_nodup hmem _

theorem App.Writable.read (hw : (h a).Writable a) (horder : ∀ i, IsOrder (order i)) :
    readViews (1 / 2) ((rows h a order).map (·.1)) = some ((rows h a order).map (·.2.2)) := by
  have hconnects (k : Nat) (entry : Properties × Widget × Widget)
      (hentry : (rows h a order)[k]? = some entry) :
      Connects (((rows h a order).map (·.2.1)).zipIdx.foldl putWidget fun _ => none)
        (([] : List Widget).length + k) entry.1 entry.2.1 entry.2.2 := by
    rw [rows_widgets]
    rw [rows, List.getElem?_map, List.getElem?_zipIdx, Option.map_map, Option.map_eq_some_iff]
      at hentry
    obtain ⟨view, hview, rfl⟩ := hentry
    obtain ⟨writes, hwrites, hnodup⟩ := hw.assigned (horder k) (List.mem_of_getElem? hview)
    have hrow := connects_rendered hw (horder k) hw.table hview hwrites hnodup
    simpa [hwrites] using hrow
  have hloop := foldlM_connectView [] hconnects
  simp only [List.nil_append] at hloop
  simp only [readViews, InferUI.Document.getWidgets, hw.getWidgets horder, Option.bind_eq_bind,
    Option.bind_some, Option.pure_def]
  exact hloop

end Rows

/-- The emitter and the renderer agree: an app is written, no key twice, and the renderer reads
back for each view what its attributes say. -/
theorem rendered_as_written (hw : (h a).Writable a) (order : Nat → List Orientation)
    (horder : ∀ i, IsOrder (order i)) {defaultBias : ℚ} (hdefault : defaultBias = 1 / 2) :
    ∃ (emitted : List Properties) (widgets : List Widget),
      ((h a).views.zipIdx.mapM fun (view, i) => view.toProperties h .outputXml (order i)) =
        some emitted ∧
      readViews defaultBias emitted = some widgets ∧
      List.Forall₂ Renders (h a).views widgets ∧
      ∀ (i : Nat) (view : View Prob), (h a).views[i]? = some view →
        ∃ writes, view.assigned h (order i) = some writes ∧
          (writes.map fun write => OutputType.outputXml.name write.1).Nodup := by
  subst hdefault
  refine ⟨(rows h a order).map (·.1), (rows h a order).map (·.2.2), hw.emitted horder,
    hw.read horder, ?_, fun i view hview => ?_⟩
  · rw [rows_rendered, List.forall₂_map_right_iff, List.forall₂_same]
    intro view hmem
    exact renders_rendered (hw.attributes view hmem) (hw.isSome hmem)
  · obtain ⟨writes, hwrites, hnodup⟩ := hw.assigned (horder i) (List.mem_of_getElem? hview)
    refine ⟨writes, hwrites, ?_⟩
    have hnames := hnodup.map (f := OutputType.outputXml.name) fun _ _ =>
      OutputType.name_injective _
    rwa [List.map_map] at hnames

end App

/-! ## A screen with a button -/

/-- A button centered at three tenths and tied to the bottom of the content frame. -/
def sampleButton : View ℚ :=
  { (View.new 200 1100 400 1200 "Button" 1 : View ℚ) with
    attributes := fun
      | .horizontal => some ⟨.l2lxr2r, .fixed, 16, 24, ⟨0, 1⟩, ⟨0, 0⟩, some ⟨0, 0⟩, 0,
          toFloat ((300000 : ℤ) / 10 ^ 6)⟩
      | .vertical => some ⟨.b2b, .fixed, 0, 80, ⟨0, 1⟩, ⟨0, 0⟩, none, 0, 1 / 2⟩ }

def sampleHeap : Heap ℚ := fun _ =>
  { views := [.new 0 0 720 1280 "android.support.constraint.ConstraintLayout" 0, sampleButton] }

theorem sampleHeap_writable : (sampleHeap 0).Writable 0 where
  distinct := by decide
  idStrings := by simp [sampleHeap, sampleButton, View.new]
  attributes := by
    intro view hmem o attr hattr
    simp only [sampleHeap, List.mem_cons, List.not_mem_nil, or_false] at hmem
    rcases hmem with rfl | rfl
    · cases hattr
    · cases o <;> cases hattr
      · exact ⟨rfl, by decide, by simp [sampleHeap], rfl, by decide, by decide, by decide,
          fun _ => ⟨300000, rfl⟩⟩
      · exact ⟨rfl, by decide, by simp, rfl, by decide, by decide, by decide,
          fun h => absurd h (by decide)⟩
  constrained := by
    intro view hmem hid o
    simp only [sampleHeap, List.mem_cons, List.not_mem_nil, or_false] at hmem
    rcases hmem with rfl | rfl
    · exact absurd rfl hid
    · cases o <;> rfl

theorem rendered_as_written_button :
    ∃ (emitted : List Properties) (widgets : List Widget),
      ((sampleHeap 0).views.zipIdx.mapM fun (view, _) =>
        view.toProperties sampleHeap .outputXml [.vertical, .horizontal]) = some emitted ∧
      readViews (1 / 2) emitted = some widgets ∧
      List.Forall₂ Renders (sampleHeap 0).views widgets ∧
      ∀ (i : Nat) (view : View ℚ), (sampleHeap 0).views[i]? = some view →
        ∃ writes, view.assigned sampleHeap [.vertical, .horizontal] = some writes ∧
          (writes.map fun write => OutputType.outputXml.name write.1).Nodup :=
  rendered_as_written sampleHeap_writable (fun _ => [.vertical, .horizontal])
    (fun _ => List.Perm.swap _ _ _) rfl

end InferUI.Document
