import InferUI.Layout
import InferUI.Decimal
import InferUI.ListLemmas

/-!
# Apps as they are stored and written

`Layout.lean` keeps of a view what the synthesis reads. Here a view has all of its tables, the
pointers of an attribute name the app they point into, and `ToProperties` writes a view as
properties for the renderer. Of `Constants::Name` there are the names that are written.

Which order an `unordered_map` is iterated in is not fixed, so the functions that iterate one
take the order.
-/

namespace InferUI.Document

/-! ## Names -/

inductive Name where
  | id
  | layoutConstraintTopToBottomOf | layoutConstraintBottomToBottomOf
  | layoutConstraintTopToTopOf | layoutConstraintBottomToTopOf
  | layoutConstraintLeftToLeftOf | layoutConstraintLeftToRightOf
  | layoutConstraintRightToRightOf | layoutConstraintRightToLeftOf
  | layoutConstraintHorizontalBias | layoutConstraintVerticalBias
  | layoutMarginTop | layoutMarginBottom | layoutMarginRight | layoutMarginLeft
  | paddingTop | paddingBottom | paddingRight | paddingLeft
  | layoutWidth | layoutHeight
  deriving DecidableEq, Repr

/-- `Constants::Type`. -/
inductive OutputType where
  | inputUi | inputXml | outputXml
  deriving DecidableEq, Repr

def valuesUi : Name → String
  | .id => "attributes:id"
  | .layoutConstraintTopToBottomOf => "attributes:layout_constraintTop_toBottomOf"
  | .layoutConstraintBottomToBottomOf => "attributes:layout_constraintBottom_toBottomOf"
  | .layoutConstraintTopToTopOf => "attributes:layout_constraintTop_toTopOf"
  | .layoutConstraintBottomToTopOf => "attributes:layout_constraintBottom_toTopOf"
  | .layoutConstraintLeftToLeftOf => "attributes:layout_constraintLeft_toLeftOf"
  | .layoutConstraintLeftToRightOf => "attributes:layout_constraintLeft_toRightOf"
  | .layoutConstraintRightToRightOf => "attributes:layout_constraintRight_toRightOf"
  | .layoutConstraintRightToLeftOf => "attributes:layout_constraintRight_toLeftOf"
  | .layoutConstraintHorizontalBias => "attributes:layout_constraintHorizontal_bias"
  | .layoutConstraintVerticalBias => "attributes:layout_constraintVertical_bias"
  | .layoutMarginTop => "layout:layout_topMargin"
  | .layoutMarginBottom => "layout:layout_bottomMargin"
  | .layoutMarginRight => "layout:layout_rightMargin"
  | .layoutMarginLeft => "layout:layout_leftMargin"
  | .paddingTop => "padding:mPaddingTop"
  | .paddingBottom => "padding:mPaddingBottom"
  | .paddingRight => "padding:mPaddingRight"
  | .paddingLeft => "padding:mPaddingLeft"
  | .layoutWidth => "attributes:layout_width"
  | .layoutHeight => "attributes:layout_height"

def resAndroid (name : String) : String :=
  "\x7bhttp://schemas.android.com/apk/res/android\x7d" ++ name

def resAuto (name : String) : String :=
  "\x7bhttp://schemas.android.com/apk/res-auto\x7d" ++ name

def valuesXml : Name → String
  | .id => resAndroid "id"
  | .layoutConstraintTopToBottomOf => resAuto "layout_constraintTop_toBottomOf"
  | .layoutConstraintBottomToBottomOf => resAuto "layout_constraintBottom_toBottomOf"
  | .layoutConstraintTopToTopOf => resAuto "layout_constraintTop_toTopOf"
  | .layoutConstraintBottomToTopOf => resAuto "layout_constraintBottom_toTopOf"
  | .layoutConstraintLeftToLeftOf => resAuto "layout_constraintLeft_toLeftOf"
  | .layoutConstraintLeftToRightOf => resAuto "layout_constraintLeft_toRightOf"
  | .layoutConstraintRightToRightOf => resAuto "layout_constraintRight_toRightOf"
  | .layoutConstraintRightToLeftOf => resAuto "layout_constraintRight_toLeftOf"
  | .layoutConstraintHorizontalBias => resAuto "layout_constraintHorizontal_bias"
  | .layoutConstraintVerticalBias => resAuto "layout_constraintVertical_bias"
  | .layoutMarginTop => resAndroid "layout_marginTop"
  | .layoutMarginBottom => resAndroid "layout_marginBottom"
  | .layoutMarginRight => resAndroid "layout_marginRight"
  | .layoutMarginLeft => resAndroid "layout_marginLeft"
  | .paddingTop => resAndroid "paddingTop"
  | .paddingBottom => resAndroid "paddingBottom"
  | .paddingRight => resAndroid "paddingRight"
  | .paddingLeft => resAndroid "paddingLeft"
  | .layoutWidth => resAndroid "layout_width"
  | .layoutHeight => resAndroid "layout_height"

def valuesOutput : Name → String
  | .id => "android:id"
  | .layoutConstraintTopToBottomOf => "app:layout_constraintTop_toBottomOf"
  | .layoutConstraintBottomToBottomOf => "app:layout_constraintBottom_toBottomOf"
  | .layoutConstraintTopToTopOf => "app:layout_constraintTop_toTopOf"
  | .layoutConstraintBottomToTopOf => "app:layout_constraintBottom_toTopOf"
  | .layoutConstraintLeftToLeftOf => "app:layout_constraintLeft_toLeftOf"
  | .layoutConstraintLeftToRightOf => "app:layout_constraintLeft_toRightOf"
  | .layoutConstraintRightToRightOf => "app:layout_constraintRight_toRightOf"
  | .layoutConstraintRightToLeftOf => "app:layout_constraintRight_toLeftOf"
  | .layoutConstraintHorizontalBias => "app:layout_constraintHorizontal_bias"
  | .layoutConstraintVerticalBias => "app:layout_constraintVertical_bias"
  | .layoutMarginTop => "android:layout_marginTop"
  | .layoutMarginBottom => "android:layout_marginBottom"
  | .layoutMarginRight => "android:layout_marginRight"
  | .layoutMarginLeft => "android:layout_marginLeft"
  | .paddingTop => "android:paddingTop"
  | .paddingBottom => "android:paddingBottom"
  | .paddingRight => "android:paddingRight"
  | .paddingLeft => "android:paddingLeft"
  | .layoutWidth => "android:layout_width"
  | .layoutHeight => "android:layout_height"

/-- `Constants::name`. -/
def OutputType.name : OutputType → Name → String
  | .inputUi => valuesUi
  | .inputXml => valuesXml
  | .outputXml => valuesOutput

def Name.all : List Name :=
  [.id, .layoutConstraintTopToBottomOf, .layoutConstraintBottomToBottomOf,
    .layoutConstraintTopToTopOf, .layoutConstraintBottomToTopOf, .layoutConstraintLeftToLeftOf,
    .layoutConstraintLeftToRightOf, .layoutConstraintRightToRightOf,
    .layoutConstraintRightToLeftOf, .layoutConstraintHorizontalBias,
    .layoutConstraintVerticalBias, .layoutMarginTop, .layoutMarginBottom, .layoutMarginRight,
    .layoutMarginLeft, .paddingTop, .paddingBottom, .paddingRight, .paddingLeft, .layoutWidth,
    .layoutHeight]

theorem Name.mem_all (name : Name) : name ∈ Name.all := by
  cases name <;> simp [Name.all]

/-- No two names of a table are the same. -/
theorem OutputType.name_injective (type : OutputType) {m n : Name}
    (h : type.name m = type.name n) : m = n := by
  have hnodup : (Name.all.map type.name).Nodup := by
    cases type <;> decide +kernel
  exact List.inj_on_of_nodup_map hnodup m.mem_all n.mem_all h

/-! ## Views and attributes -/

/-- The address of a view: the app that holds it, and its place in that app's vector. -/
structure ViewPtr where
  app : Nat
  index : Nat
  deriving DecidableEq, Repr

structure Attribute (Prob : Type) where
  type : ConstraintType
  viewSize : ViewSize
  valuePrimary : Int
  valueSecondary : Int
  src : ViewPtr
  tgtPrimary : ViewPtr
  tgtSecondary : Option ViewPtr
  prob : Prob
  bias : ℚ
  deriving DecidableEq, Repr

/-- The constructor with all targets; `none` is a failed `CHECK`. -/
def Attribute.new {Prob : Type} [Zero Prob] (type : ConstraintType) (viewSize : ViewSize)
    (valuePrimary valueSecondary : Int) (src primary : ViewPtr) (secondary : Option ViewPtr)
    (bias : ℚ) : Option (Attribute Prob) :=
  if secondary.isSome = type.isCenterAnchor ∧ 0 ≤ valuePrimary ∧ 0 ≤ valueSecondary then
    some ⟨type, viewSize, valuePrimary, valueSecondary, src, primary, secondary, 0, bias⟩
  else none

structure Padding where
  paddingLeft : Int := 0
  paddingRight : Int := 0
  paddingTop : Int := 0
  paddingBottom : Int := 0
  deriving DecidableEq, Repr

structure View (Prob : Type) where
  xleft : Int
  xright : Int
  ytop : Int
  ybottom : Int
  padding : Padding := {}
  name : String
  id : Int
  pos : Int := -1
  idString : String
  attributes : Orientation → Option (Attribute Prob) := fun _ => none
  viewSize : Orientation → Option ViewSize := fun _ => none

variable {Prob : Type}

/-- The id string of a view that is made without one. -/
def defaultIdString (id : Int) : String := if id = 0 then "parent" else "@+id/view" ++ id.repr

/-- The constructor without an id string. -/
def View.new (left top right bottom : Int) (name : String) (id : Int) : View Prob where
  xleft := left
  xright := right
  ytop := top
  ybottom := bottom
  name := name
  id := id
  idString := defaultIdString id

namespace View

def placed (i : Nat) (view : View Prob) : View Prob := { view with pos := i }

def isContentFrame (view : View Prob) : Bool := decide (view.id = 0)

/-- A difference of two `int`s. -/
def difference (high low : Int) : Int := (high - low).bmod (2 ^ 32)

def size (view : View Prob) : Orientation → Int
  | .horizontal => difference view.xright view.xleft
  | .vertical => difference view.ybottom view.ytop

end View

structure App (Prob : Type) where
  views : List (View Prob) := []
  seqIdToPos : List Int := []
  resizable : List Bool := []

namespace App

/-- `AddView`: the view gets its place as its `pos`. -/
def addView (app : App Prob) (view : View Prob) : App Prob :=
  { app with views := app.views ++ [view.placed app.views.length] }

/-- `ApplyAttribute` on a view of the app. -/
def applyAttribute (app : App Prob) (i : Nat) (o : Orientation) (attr : Attribute Prob) :
    App Prob :=
  { app with views := app.views.modify i fun view =>
      { view with attributes := Function.update view.attributes o (some attr) } }

/-- Where `findView` finds a view. -/
def findView (app : App Prob) (id : Int) : Option Nat := app.views.findIdx? fun v => v.id == id

end App

/-- The apps in memory. -/
abbrev Heap (Prob : Type) := Nat → App Prob

def Heap.view? (h : Heap Prob) (p : ViewPtr) : Option (View Prob) := (h p.app).views[p.index]?

/-! ## Properties -/

def px (value : Int) : String := value.repr ++ "px"

/-- A distance is only written when there is one. -/
def writePx (name : Name) (value : Int) : List (Name × String) :=
  if value ≠ 0 then [(name, px value)] else []

def Padding.toProperties (padding : Padding) : List (Name × String) :=
  writePx .paddingLeft padding.paddingLeft ++ writePx .paddingRight padding.paddingRight ++
    writePx .paddingTop padding.paddingTop ++ writePx .paddingBottom padding.paddingBottom

/-- `ViewSizeStr` of a size and a value. -/
def viewSizeStr : ViewSize → Int → String
  | .matchConstraint, _ => "0dp"
  | .matchParent, _ => "match_parent"
  | .fixed, value => px value

def constraintTypeToAttribute : ConstraintType → Option Name
  | .l2l => some .layoutConstraintLeftToLeftOf
  | .l2r => some .layoutConstraintLeftToRightOf
  | .r2l => some .layoutConstraintRightToLeftOf
  | .r2r => some .layoutConstraintRightToRightOf
  | .t2t => some .layoutConstraintTopToTopOf
  | .t2b => some .layoutConstraintTopToBottomOf
  | .b2t => some .layoutConstraintBottomToTopOf
  | .b2b => some .layoutConstraintBottomToBottomOf
  | _ => none

def constraintTypeToMargin : ConstraintType → Option Name
  | .l2l => some .layoutMarginLeft
  | .l2r => some .layoutMarginLeft
  | .r2l => some .layoutMarginRight
  | .r2r => some .layoutMarginRight
  | .t2t => some .layoutMarginTop
  | .t2b => some .layoutMarginTop
  | .b2t => some .layoutMarginBottom
  | .b2b => some .layoutMarginBottom
  | _ => none

/-- `AlignToProperties` of an attribute with this type, these values and this target. -/
def alignToProperties (type : ConstraintType) (valuePrimary valueSecondary : Int)
    (target : View Prob) : Option (List (Name × String)) := do
  let anchor ← constraintTypeToAttribute type
  let margin ← constraintTypeToMargin type
  if valuePrimary = 0 ∨ valueSecondary = 0 then
    some ((anchor, if target.id = 0 then "parent" else target.idString) ::
      (writePx margin valuePrimary ++ writePx margin valueSecondary))
  else none

/-- `ToProperties` of an attribute that is made with one value and one target. -/
def halfToProperties (type : ConstraintType) (value : Int) (target : View Prob) :
    Option (List (Name × String)) := do
  let start ← type.isTypeStart
  if 0 ≤ value then
    alignToProperties type (if start then value else 0) (if start then 0 else value) target
  else none

def biasName : Orientation → Name
  | .horizontal => .layoutConstraintHorizontalBias
  | .vertical => .layoutConstraintVerticalBias

def writeBias (type : ConstraintType) (bias : ℚ) : List (Name × String) :=
  if bias ≠ 1 / 2 then [(biasName type.toOrientation, toFixed 6 bias)] else []

namespace Attribute

def centerToProperties (h : Heap Prob) (attr : Attribute Prob) : Option (List (Name × String)) := do
  let types ← attr.type.splitCenterAnchor
  let start ← halfToProperties types.1 attr.valuePrimary (← h.view? attr.tgtPrimary)
  let end' ← halfToProperties types.2 attr.valueSecondary (← h.view? (← attr.tgtSecondary))
  return start ++ end' ++ writeBias attr.type attr.bias

/-- What `ToProperties` assigns, in order. -/
def toProperties (h : Heap Prob) (attr : Attribute Prob) : Option (List (Name × String)) :=
  if attr.type.isCenterAnchor then attr.centerToProperties h
  else (h.view? attr.tgtPrimary).bind
    (alignToProperties attr.type attr.valuePrimary attr.valueSecondary)

end Attribute

def sizeName : Orientation → Name
  | .horizontal => .layoutWidth
  | .vertical => .layoutHeight

/-- An order in which a table with both orientations can be visited. -/
def IsOrder (order : List Orientation) : Prop := order.Perm [.horizontal, .vertical]

theorem IsOrder.nodup {order : List Orientation} (h : IsOrder order) : order.Nodup :=
  h.nodup_iff.mpr (by decide)

theorem IsOrder.mem {order : List Orientation} (h : IsOrder order) (o : Orientation) :
    o ∈ order := by
  rw [h.mem_iff]
  cases o <;> simp

namespace View

/-- The attributes of a view as a loop over them meets them. -/
def visit (order : List Orientation) (view : View Prob) : List (Orientation × Attribute Prob) :=
  order.filterMap fun o => (view.attributes o).map (o, ·)

def sizesToProperties (order : List Orientation) (view : View Prob) :
    Option (List (Name × String)) :=
  if view.isContentFrame then
    some [(.layoutWidth, px (view.size .horizontal)), (.layoutHeight, px (view.size .vertical))]
  else if (view.visit order).length = 2 then
    some ((view.visit order).map fun (o, attr) =>
      (sizeName o, viewSizeStr attr.viewSize (view.size o)))
  else none

/-- What `ToProperties` assigns, in order. -/
def assigned (h : Heap Prob) (order : List Orientation) (view : View Prob) :
    Option (List (Name × String)) := do
  let sizes ← view.sizesToProperties order
  let attributes ← (view.visit order).mapM fun (_, attr) => attr.toProperties h
  return (.id, view.idString) :: view.padding.toProperties ++ sizes ++ attributes.flatten

end View

/-- A map from keys to values. -/
abbrev Properties := String → Option String

/-- The map after these assignments. -/
def properties (type : OutputType) (writes : List (Name × String)) : Properties :=
  writes.foldl (fun p write => Function.update p (type.name write.1) (some write.2)) fun _ => none

namespace View

def toProperties (h : Heap Prob) (type : OutputType) (order : List Orientation)
    (view : View Prob) : Option Properties :=
  (view.assigned h order).map (properties type)

end View

structure AppJson where
  layout : List Properties
  xOffset : Int
  yOffset : Int

/-- `ToJSON`; `order` is the order of each view's attributes. -/
def App.toJson (h : Heap Prob) (type : OutputType) (order : Nat → List Orientation)
    (app : App Prob) : Option AppJson := do
  let layout ← app.views.zipIdx.mapM fun (view, i) => view.toProperties h type (order i)
  let root ← app.views.head?
  return ⟨layout.modify 0 fun p => Function.update p (type.name .id) (some "parent"),
    root.xleft, root.ytop⟩

/-! ## Every name is written once -/

/-- What a name says something about. -/
inductive Slot where
  | id | padding
  | size (o : Orientation)
  | attribute (o : Orientation)
  deriving DecidableEq

def Name.slot : Name → Slot
  | .id => .id
  | .paddingTop | .paddingBottom | .paddingRight | .paddingLeft => .padding
  | .layoutWidth => .size .horizontal
  | .layoutHeight => .size .vertical
  | .layoutConstraintLeftToLeftOf | .layoutConstraintLeftToRightOf
  | .layoutConstraintRightToRightOf | .layoutConstraintRightToLeftOf
  | .layoutConstraintHorizontalBias | .layoutMarginLeft | .layoutMarginRight =>
    .attribute .horizontal
  | .layoutConstraintTopToTopOf | .layoutConstraintTopToBottomOf
  | .layoutConstraintBottomToBottomOf | .layoutConstraintBottomToTopOf
  | .layoutConstraintVerticalBias | .layoutMarginTop | .layoutMarginBottom =>
    .attribute .vertical

def halfNames (type : ConstraintType) : List Name :=
  (constraintTypeToAttribute type).toList ++ (constraintTypeToMargin type).toList

/-- The names that an attribute of a type can be written with. -/
def namesOf (type : ConstraintType) : List Name :=
  match type.splitCenterAnchor with
  | some (start, «end») => halfNames start ++ halfNames «end» ++ [biasName type.toOrientation]
  | none => halfNames type

theorem namesOf_nodup (type : ConstraintType) : (namesOf type).Nodup := by
  cases type <;> decide

theorem slot_of_mem_namesOf {type : ConstraintType} {name : Name} (h : name ∈ namesOf type) :
    name.slot = .attribute type.toOrientation := by
  have hall : ∀ n ∈ namesOf type, n.slot = .attribute type.toOrientation := by
    cases type <;> decide
  exact hall name h

theorem writePx_names (name : Name) (value : Int) :
    ((writePx name value).map (·.1)).Sublist [name] := by
  rw [writePx]
  split <;> simp

theorem alignToProperties_names {type : ConstraintType} {primary secondary : Int}
    {target : View Prob} {writes : List (Name × String)}
    (h : alignToProperties type primary secondary target = some writes) :
    (writes.map (·.1)).Sublist (halfNames type) := by
  simp only [alignToProperties, Option.bind_eq_bind, Option.bind_eq_some_iff,
    Option.ite_none_right_eq_some, Option.some.injEq] at h
  obtain ⟨anchor, ha, margin, hm, hzero, rfl⟩ := h
  rw [halfNames, ha, hm, List.map_cons, Option.toList_some, Option.toList_some,
    List.singleton_append]
  apply List.Sublist.cons_cons
  rcases hzero with rfl | rfl
  · exact writePx_names margin secondary
  · have hnone : writePx margin 0 = [] := rfl
    rw [hnone, List.append_nil]
    exact writePx_names margin primary

theorem halfToProperties_names {type : ConstraintType} {value : Int} {target : View Prob}
    {writes : List (Name × String)} (h : halfToProperties type value target = some writes) :
    (writes.map (·.1)).Sublist (halfNames type) := by
  simp only [halfToProperties, Option.bind_eq_bind, Option.bind_eq_some_iff,
    Option.ite_none_right_eq_some] at h
  obtain ⟨_, _, _, h⟩ := h
  exact alignToProperties_names h

theorem writeBias_names (type : ConstraintType) (bias : ℚ) :
    ((writeBias type bias).map (·.1)).Sublist [biasName type.toOrientation] := by
  rw [writeBias]
  split <;> simp

theorem Attribute.toProperties_names {h : Heap Prob} {attr : Attribute Prob}
    {writes : List (Name × String)} (hw : attr.toProperties h = some writes) :
    (writes.map (·.1)).Sublist (namesOf attr.type) := by
  unfold toProperties at hw
  split at hw
  · simp only [centerToProperties, Option.bind_eq_bind, Option.bind_eq_some_iff,
      Option.pure_def, Option.some.injEq] at hw
    obtain ⟨types, hsplit, _, _, start, hstart, _, _, _, _, «end», hend, rfl⟩ := hw
    rw [namesOf, hsplit, List.map_append, List.map_append]
    exact ((halfToProperties_names hstart).append (halfToProperties_names hend)).append
      (writeBias_names _ _)
  · rename_i hrel
    obtain ⟨_, _, hw⟩ := Option.bind_eq_some_iff.mp hw
    have hsplit : attr.type.splitCenterAnchor = none := by
      revert hrel
      cases attr.type <;> decide
    rw [namesOf, hsplit]
    exact alignToProperties_names hw

namespace View

/-- Each attribute is of the orientation it stands for. -/
def Oriented (view : View Prob) : Prop :=
  ∀ o attr, view.attributes o = some attr → attr.type.toOrientation = o

theorem visit_cons (o : Orientation) (order : List Orientation) (view : View Prob) :
    view.visit (o :: order) =
      ((view.attributes o).map (o, ·)).toList ++ view.visit order := by
  rw [visit, List.filterMap_cons]
  cases view.attributes o <;> rfl

theorem visit_fst (order : List Orientation) (view : View Prob) :
    (view.visit order).map (·.1) = order.filter fun o => (view.attributes o).isSome := by
  induction order with
  | nil => rfl
  | cons o order ih =>
    rw [visit_cons, List.map_append, ih, List.filter_cons]
    cases view.attributes o <;> simp

theorem attributes_names {h : Heap Prob} {view : View Prob} (hview : view.Oriented)
    {order : List Orientation} (horder : order.Nodup) {writes : List (List (Name × String))}
    (hw : (view.visit order).mapM (fun (_, attr) => attr.toProperties h) = some writes) :
    (writes.flatten.map (·.1)).Nodup ∧
      ∀ name ∈ writes.flatten.map (·.1), ∃ o ∈ order, name.slot = .attribute o := by
  rw [mapM_eq_some_iff_forall₂] at hw
  induction order generalizing writes with
  | nil =>
    cases hw
    simp
  | cons o order ih =>
    obtain ⟨hnew, horder⟩ := List.nodup_cons.mp horder
    rw [visit_cons] at hw
    cases hattr : view.attributes o with
    | none =>
      rw [hattr] at hw
      obtain ⟨hnodup, hslot⟩ := ih horder hw
      refine ⟨hnodup, fun name hname => ?_⟩
      obtain ⟨o', ho', hs⟩ := hslot name hname
      exact ⟨o', List.mem_cons_of_mem o ho', hs⟩
    | some attr =>
      rw [hattr] at hw
      cases hw with
      | @cons _ first _ rest hfirst hrest =>
        obtain ⟨hnodup, hslot⟩ := ih horder hrest
        have hsub := Attribute.toProperties_names hfirst
        have hown (name : Name) (hname : name ∈ first.map (·.1)) : name.slot = .attribute o := by
          rw [slot_of_mem_namesOf (hsub.subset hname), hview o attr hattr]
        rw [List.flatten_cons, List.map_append]
        refine ⟨List.nodup_append'.mpr ⟨(namesOf_nodup _).sublist hsub, hnodup, ?_⟩, ?_⟩
        · intro name hname hname'
          obtain ⟨o', ho', hs⟩ := hslot name hname'
          rw [hown name hname, Slot.attribute.injEq] at hs
          exact hnew (hs ▸ ho')
        · intro name hname
          rcases List.mem_append.mp hname with hname | hname
          · exact ⟨o, List.mem_cons_self, hown name hname⟩
          · obtain ⟨o', ho', hs⟩ := hslot name hname
            exact ⟨o', List.mem_cons_of_mem o ho', hs⟩

theorem sizes_names {view : View Prob} {order : List Orientation} (horder : order.Nodup)
    {sizes : List (Name × String)} (hs : view.sizesToProperties order = some sizes) :
    (sizes.map (·.1)).Nodup ∧ ∀ name ∈ sizes.map (·.1), ∃ o, name.slot = .size o := by
  have hinj : Function.Injective sizeName := by
    intro o o' h
    revert h
    cases o <;> cases o' <;> decide
  have hslot (o : Orientation) : (sizeName o).slot = .size o := by cases o <;> rfl
  unfold sizesToProperties at hs
  split at hs
  · cases Option.some.inj hs
    exact ⟨by simp, by simp [Name.slot]⟩
  · obtain ⟨_, hs⟩ := Option.ite_none_right_eq_some.mp hs
    cases Option.some.inj hs
    have hnames : ((view.visit order).map fun e => (sizeName e.1, viewSizeStr e.2.viewSize
        (view.size e.1))).map (·.1) = ((view.visit order).map (·.1)).map sizeName := by
      rw [List.map_map, List.map_map]
      rfl
    rw [hnames, visit_fst]
    refine ⟨(horder.filter _).map hinj, fun name hname => ?_⟩
    obtain ⟨o, _, rfl⟩ := List.mem_map.mp hname
    exact ⟨o, hslot o⟩

theorem padding_names (padding : Padding) :
    (padding.toProperties.map (·.1)).Nodup ∧
      ∀ name ∈ padding.toProperties.map (·.1), name.slot = .padding := by
  have hsub : (padding.toProperties.map (·.1)).Sublist
      [.paddingLeft, .paddingRight, .paddingTop, .paddingBottom] := by
    simp only [Padding.toProperties, List.map_append]
    exact (((writePx_names _ _).append (writePx_names _ _)).append (writePx_names _ _)).append
      (writePx_names _ _)
  have hslot : ∀ name ∈ [Name.paddingLeft, .paddingRight, .paddingTop, .paddingBottom],
      name.slot = .padding := by decide
  exact ⟨List.Nodup.sublist hsub (by decide), fun name hname => hslot name (hsub.subset hname)⟩

/-- `ToProperties` never assigns a name twice. -/
theorem assigned_nodup {h : Heap Prob} {view : View Prob} (hview : view.Oriented)
    {order : List Orientation} (horder : order.Nodup) {writes : List (Name × String)}
    (hw : view.assigned h order = some writes) : (writes.map (·.1)).Nodup := by
  simp only [assigned, Option.bind_eq_bind, Option.bind_eq_some_iff, Option.pure_def,
    Option.some.injEq] at hw
  obtain ⟨sizes, hsizes, attributes, hattributes, rfl⟩ := hw
  obtain ⟨hpn, hps⟩ := padding_names view.padding
  obtain ⟨hsn, hss⟩ := sizes_names horder hsizes
  obtain ⟨han, has⟩ := attributes_names hview horder hattributes
  simp only [List.cons_append, List.map_cons, List.map_append, List.nodup_cons]
  refine ⟨?_, List.nodup_append'.mpr ⟨List.nodup_append'.mpr ⟨hpn, hsn, ?_⟩, han, ?_⟩⟩
  · simp only [List.mem_append, not_or]
    refine ⟨⟨fun hp => ?_, fun hs => ?_⟩, fun ha => ?_⟩
    · cases hps _ hp
    · obtain ⟨_, hs⟩ := hss _ hs
      cases hs
    · obtain ⟨_, _, ha⟩ := has _ ha
      cases ha
  · intro name hp hs
    obtain ⟨_, hs⟩ := hss _ hs
    rw [hps _ hp] at hs
    cases hs
  · intro name hp ha
    obtain ⟨_, _, ha⟩ := has _ ha
    rcases List.mem_append.mp hp with hp | hs
    · rw [hps _ hp] at ha
      cases ha
    · obtain ⟨_, hs⟩ := hss _ hs
      rw [hs] at ha
      cases ha

end View

theorem foldl_update {type : OutputType} {writes : List (Name × String)}
    (hnodup : (writes.map (·.1)).Nodup) (p : Properties) (key value : String) :
    writes.foldl (fun p write => Function.update p (type.name write.1) (some write.2)) p key =
        some value ↔
      (∃ name, type.name name = key ∧ (name, value) ∈ writes) ∨
        (p key = some value ∧ ∀ write ∈ writes, type.name write.1 ≠ key) := by
  induction writes generalizing p with
  | nil => simp
  | cons write writes ih =>
    obtain ⟨hnew, hnodup⟩ := List.nodup_cons.mp hnodup
    rw [List.foldl_cons, ih hnodup]
    by_cases hkey : type.name write.1 = key
    · have hother : ∀ write' ∈ writes, type.name write'.1 ≠ key := fun write' hw h =>
        hnew (List.mem_map.mpr ⟨write', hw, type.name_injective (h.trans hkey.symm)⟩)
      have hnone : ¬ ∃ name, type.name name = key ∧ (name, value) ∈ writes :=
        fun ⟨name, hn, hw⟩ => hother _ hw hn
      subst hkey
      rw [Function.update_self]
      constructor
      · rintro (h | ⟨h, -⟩)
        · exact absurd h hnone
        · exact Or.inl ⟨write.1, rfl, by rw [← Option.some.inj h]; exact List.mem_cons_self⟩
      · rintro (⟨name, hn, hw⟩ | ⟨-, h⟩)
        · have hname := type.name_injective hn
          subst hname
          rcases List.mem_cons.mp hw with hw | hw
          · exact Or.inr ⟨by rw [← hw], hother⟩
          · exact absurd ⟨_, rfl, hw⟩ hnone
        · exact absurd rfl (h write List.mem_cons_self)
    · rw [Function.update_of_ne (Ne.symm hkey)]
      constructor
      · rintro (⟨name, hn, hw⟩ | ⟨hp, h⟩)
        · exact Or.inl ⟨name, hn, List.mem_cons_of_mem _ hw⟩
        · exact Or.inr ⟨hp, List.forall_mem_cons.mpr ⟨hkey, h⟩⟩
      · rintro (⟨name, hn, hw⟩ | ⟨hp, h⟩)
        · rcases List.mem_cons.mp hw with rfl | hw
          · exact absurd hn hkey
          · exact Or.inl ⟨name, hn, hw⟩
        · exact Or.inr ⟨hp, (List.forall_mem_cons.mp h).2⟩

/-- A map holds what was assigned when no name is assigned twice. -/
theorem properties_eq_some_iff {type : OutputType} {writes : List (Name × String)}
    (hnodup : (writes.map (·.1)).Nodup) {key value : String} :
    properties type writes key = some value ↔
      ∃ name, type.name name = key ∧ (name, value) ∈ writes := by
  rw [properties, foldl_update hnodup]
  simp

theorem properties_perm {type : OutputType} {writes writes' : List (Name × String)}
    (hnodup : (writes.map (·.1)).Nodup) (hperm : writes.Perm writes') :
    properties type writes = properties type writes' := by
  funext key
  apply Option.ext
  intro value
  rw [properties_eq_some_iff hnodup,
    properties_eq_some_iff ((hperm.map _).nodup_iff.mp hnodup)]
  simp only [hperm.mem_iff]

namespace View

theorem visit_perm {order order' : List Orientation} (hperm : order.Perm order')
    (view : View Prob) : (view.visit order).Perm (view.visit order') :=
  hperm.filterMap _

theorem sizesToProperties_perm {order order' : List Orientation} (hperm : order.Perm order')
    {view : View Prob} {sizes : List (Name × String)}
    (h : view.sizesToProperties order = some sizes) :
    ∃ sizes', view.sizesToProperties order' = some sizes' ∧ sizes'.Perm sizes := by
  have hvisit := view.visit_perm hperm
  unfold sizesToProperties at h ⊢
  split at h
  · rename_i hroot
    rw [if_pos hroot]
    exact ⟨_, rfl, by rw [Option.some.inj h]⟩
  · rename_i hroot
    obtain ⟨hlength, hs⟩ := Option.ite_none_right_eq_some.mp h
    rw [if_neg hroot, if_pos (hvisit.length_eq ▸ hlength)]
    exact ⟨_, rfl, by rw [← Option.some.inj hs]; exact (hvisit.map _).symm⟩

theorem assigned_perm {h : Heap Prob} {order order' : List Orientation}
    (hperm : order.Perm order') {view : View Prob} {writes : List (Name × String)}
    (hw : view.assigned h order = some writes) :
    ∃ writes', view.assigned h order' = some writes' ∧ writes'.Perm writes := by
  simp only [assigned, Option.bind_eq_bind, Option.bind_eq_some_iff, Option.pure_def,
    Option.some.injEq] at hw ⊢
  obtain ⟨sizes, hsizes, attributes, hattributes, rfl⟩ := hw
  obtain ⟨sizes', hsizes', hsp⟩ := sizesToProperties_perm hperm hsizes
  obtain ⟨attributes', hattributes', hap⟩ := mapM_perm (view.visit_perm hperm) hattributes
  refine ⟨_, ⟨sizes', hsizes', attributes', hattributes', rfl⟩, ?_⟩
  exact ((hsp.append_left _).cons _).append hap.flatten

/-- In which order the attributes are visited does not show. -/
theorem toProperties_perm {h : Heap Prob} {view : View Prob} (hview : view.Oriented)
    {order order' : List Orientation} (hperm : order.Perm order') (horder : order.Nodup)
    (type : OutputType) : view.toProperties h type order = view.toProperties h type order' := by
  unfold toProperties
  cases hw : view.assigned h order with
  | none =>
    cases hw' : view.assigned h order' with
    | none => rfl
    | some writes' =>
      obtain ⟨_, hsome, _⟩ := assigned_perm hperm.symm hw'
      rw [hw] at hsome
      cases hsome
  | some writes =>
    obtain ⟨writes', hw', hp⟩ := assigned_perm hperm hw
    rw [hw', Option.map_some, Option.map_some,
      properties_perm (assigned_nodup hview horder hw) hp.symm]

end View

end InferUI.Document
