import InferUI.Document
import Mathlib.Data.Finset.Card
import Mathlib.Order.Monotone.Basic

/-!
# Screens of a dataset

A screen of the dataset as it is recorded: its views with their properties as text, what the
properties are read as, and which screens `ValidApp` accepts. `none` stands for a failed `CHECK`,
an access outside of a vector and a call that does not return.
-/

namespace InferUI.Document

/-! ## Properties -/

/-- The names that are looked up in a dataset. -/
inductive InputName where
  | written (name : Name)
  | layoutMargin
  | layoutConstraintBaselineToBaselineOf
  | padding | paddingStart | paddingEnd | paddingHorizontal | paddingVertical
  | layoutConstraintVerticalChainStyle | layoutConstraintHorizontalChainStyle
  deriving DecidableEq, Repr

structure ProtoView where
  xleft : Int
  ytop : Int
  xright : Int
  ybottom : Int
  type : String
  id : String
  seqId : Int
  parentSeqId : Int
  properties : Properties

structure ProtoScreen where
  views : List ProtoView

def ProtoScreen.view? (screen : ProtoScreen) (i : Int) : Option ProtoView :=
  if i < 0 then none else screen.views[i.toNat]?

def constraintLayout : String := "android.support.constraint.ConstraintLayout"

def guideline : String := "android.support.constraint.Guideline"

/-- How properties are read: the flag `xml_attributes`, and `ParseFloat`, which is `strtof` on all
of a text that is a number with a finite value. -/
structure Reader where
  xmlAttributes : Bool
  parseFloat : List Char → Option ℚ

/-! ## Numbers and ids in a text -/

namespace ValueParser

/-- `std::regex_search`: the match that starts first. -/
def search {α : Type} (matchAt : List Char → Option α) : List Char → Option α
  | [] => matchAt []
  | c :: cs => (matchAt (c :: cs)).or (search matchAt cs)

/-- An optional character. -/
def skip (c : Char) : List Char → List Char
  | [] => []
  | d :: cs => if d = c then cs else d :: cs

/-- `\d+`, and what follows. -/
def digits (cs : List Char) : Option (List Char × List Char) :=
  let found := cs.takeWhile Char.isDigit
  if found = [] then none else some (found, cs.dropWhile Char.isDigit)

/-- `-?\d+\.?\d*`, and what follows. -/
def decimal (cs : List Char) : Option (List Char × List Char) :=
  (digits (skip '-' cs)).map fun whole =>
    let rest := (skip '.' whole.2).dropWhile Char.isDigit
    (cs.take (cs.length - rest.length), rest)

/-- `[sd]p`, with an `i?` in between if `long`. -/
def startsUnit (long : Bool) : List Char → Bool
  | [] => false
  | c :: cs => (c = 's' || c = 'd') && ((if long then skip 'i' cs else cs).head? = some 'p')

def valueRegex : List (List Char → Option (List Char)) :=
  [search fun cs => (decimal cs).bind fun value =>
      if startsUnit true value.2 then some value.1 else none,
    search fun cs => (digits cs).bind fun value =>
      if startsUnit false (skip '_' value.2) then some value.1 else none,
    search fun cs =>
      if startsUnit false cs then (digits (skip '_' (cs.drop 2))).map (·.1) else none,
    fun cs => (digits cs).bind fun value => if value.2 = [] then some value.1 else none]

def hasValue (input : String) : Bool := valueRegex.any fun regex => (regex input.toList).isSome

def parseValue (parseFloat : List Char → Option ℚ) (input : String) : Option ℚ :=
  match valueRegex.findSome? fun regex => regex input.toList with
  | some value => parseFloat value
  | none => some 0

/-- `@\+?(.*)`. A quote before it is not part of the group, and one after it always is. -/
def idRegex : List Char → Option (List Char)
  | '@' :: cs => some ((skip '+' cs).takeWhile fun c => c ≠ '\n' && c ≠ '\r')
  | _ => none

def parseId (input : String) : List Char := (search idRegex input.toList).getD []

end ValueParser

open ValueParser

namespace Reader
variable (reader : Reader)

/-- `Constants::name` of the input. -/
def name : InputName → String
  | .written name => (if reader.xmlAttributes then OutputType.inputXml else .inputUi).name name
  | .layoutMargin =>
    if reader.xmlAttributes then resAndroid "layout_margin" else "layout:layout_margin"
  | .layoutConstraintBaselineToBaselineOf =>
    if reader.xmlAttributes then resAuto "layout_constraintBaseline_toBaselineOf"
    else "attributes:layout_constraintBaseline_toBaselineOf"
  | .padding => if reader.xmlAttributes then resAndroid "padding" else "NOT_DEFINED"
  | .paddingStart => if reader.xmlAttributes then resAndroid "paddingStart" else "NOT_DEFINED"
  | .paddingEnd => if reader.xmlAttributes then resAndroid "paddingEnd" else "NOT_DEFINED"
  | .paddingHorizontal =>
    if reader.xmlAttributes then resAndroid "paddingHorizontal" else "NOT_DEFINED"
  | .paddingVertical => if reader.xmlAttributes then resAndroid "paddingVertical" else "NOT_DEFINED"
  | .layoutConstraintVerticalChainStyle =>
    if reader.xmlAttributes then resAuto "layout_constraintVertical_chainStyle"
    else "attributes:layout_constraintVertical_chainStyle"
  | .layoutConstraintHorizontalChainStyle =>
    if reader.xmlAttributes then resAuto "layout_constraintHorizontal_chainStyle"
    else "attributes:layout_constraintHorizontal_chainStyle"

def property (view : ProtoView) (name : InputName) : Option String :=
  view.properties (reader.name name)

def hasProperty (view : ProtoView) (name : InputName) : Bool := (reader.property view name).isSome

/-- `GetViewSize` of a text. -/
def viewSizeOf (value : String) : Option ViewSize :=
  if value = "match_parent" ∨ value = "fill_parent" then some .matchParent
  else if hasValue value then
    (parseValue reader.parseFloat value).map fun x => if x = 0 then .matchConstraint else .fixed
  else some .fixed

def getViewSize (view : ProtoView) (o : Orientation) : Option ViewSize :=
  (reader.property view (.written (sizeName o))).bind reader.viewSizeOf

/-- What a margin is read as. -/
def marginOf (value : String) : Option ℚ :=
  if hasValue value then (parseValue reader.parseFloat value).map (· * 2) else some 0

def getMarginFromProto (view : ProtoView) : Option Name → Option ℚ
  | none => some 0
  | some type =>
    match reader.property view (.written type) with
    | some value => reader.marginOf value
    | none =>
      match reader.property view .layoutMargin with
      | some value => reader.marginOf value
      | none => some 0

def getBiasFromProto (view : ProtoView) (o : Orientation) : Option ℚ :=
  match reader.property view (.written (biasName o)) with
  | some value => reader.parseFloat value.toList
  | none => some (1 / 2)

end Reader

/-- A `float` as an `int`, which must be in range. -/
def toInt (x : ℚ) : Option Int :=
  let n := x.num.tdiv x.den
  if -2 ^ 31 ≤ n ∧ n < 2 ^ 31 then some n else none

/-- An assignment to a field of a padding, if there is such a property. -/
def Reader.assignPadding (reader : Reader) (view : ProtoView) (current : Int) (name : InputName) :
    Option Int :=
  match reader.property view name with
  | some value => (parseValue reader.parseFloat value).bind toInt
  | none => some current

/-- `Padding::Initialize`; each field is assigned from these properties in turn. -/
def Padding.initializeFrom (reader : Reader) (padding : Padding) (view : ProtoView) :
    Option Padding := do
  let left ← [.written .paddingLeft, .paddingHorizontal, .padding, .paddingStart].foldlM
    (reader.assignPadding view) padding.paddingLeft
  let right ← [.written .paddingRight, .paddingHorizontal, .padding, .paddingEnd].foldlM
    (reader.assignPadding view) padding.paddingRight
  let top ← [.written .paddingTop, .paddingVertical, .padding].foldlM
    (reader.assignPadding view) padding.paddingTop
  let bottom ← [.written .paddingBottom, .paddingVertical, .padding].foldlM
    (reader.assignPadding view) padding.paddingBottom
  return ⟨left * 2, right * 2, top * 2, bottom * 2⟩

/-! ## References -/

namespace ProtoScreen
variable (screen : ProtoScreen)

/-- The outer `none` is a parent that does not exist, the inner one a null pointer. -/
def findViewById (view : ProtoView) (id : String) : Option (Option ProtoView) :=
  if id = "parent" then
    if view.parentSeqId = -1 then some none else (screen.view? view.parentSeqId).map some
  else if parseId id = [] then some none
  else some (screen.views.find? fun other => parseId other.id = parseId id)

def findPropertyTarget (reader : Reader) (view : ProtoView) (name : Name) :
    Option (Option ProtoView) :=
  match reader.property view (.written name) with
  | some id => screen.findViewById view id
  | none => some none

/-- The first of the properties with a target, and the target. -/
def findFirstTarget (screen : ProtoScreen) (reader : Reader) (view : ProtoView) :
    List Name → Option (Option (ProtoView × Name))
  | [] => some none
  | name :: names => (screen.findPropertyTarget reader view name).bind fun
    | some target => some (some (target, name))
    | none => findFirstTarget screen reader view names

/-- `InRootLayout` with this many calls. -/
def inRootLayout (screen : ProtoScreen) (layoutType : String) : Nat → ProtoView → Option Bool
  | 0, _ => none
  | fuel + 1, view =>
    if view.parentSeqId = -1 then some true
    else (screen.view? view.parentSeqId).bind fun parent =>
      (inRootLayout screen layoutType fuel parent).map fun inRoot =>
        inRoot && parent.type = layoutType

/-- No call that returns makes more calls than this: see `inRootLayout_stable`. -/
def inRootConstraintLayout (view : ProtoView) : Option Bool :=
  screen.inRootLayout constraintLayout (screen.views.length + 1) view

section Calls
variable {screen : ProtoScreen} {layoutType : String}

theorem inRootLayout_mono {fuel : Nat} {view : ProtoView} {b : Bool}
    (h : screen.inRootLayout layoutType fuel view = some b) :
    screen.inRootLayout layoutType (fuel + 1) view = some b := by
  induction fuel generalizing view b with
  | zero => cases h
  | succ fuel ih =>
    rw [inRootLayout] at h ⊢
    split at h <;> rename_i hroot
    · rw [if_pos hroot]
      exact h
    · rw [if_neg hroot]
      obtain ⟨parent, hparent, hcall⟩ := Option.bind_eq_some_iff.mp h
      obtain ⟨inRoot, hinRoot, rfl⟩ := Option.map_eq_some_iff.mp hcall
      rw [hparent, Option.bind_some, ih hinRoot, Option.map_some]

theorem inRootLayout_le {fuel fuel' : Nat} (hle : fuel ≤ fuel') {view : ProtoView} {b : Bool}
    (h : screen.inRootLayout layoutType fuel view = some b) :
    screen.inRootLayout layoutType fuel' view = some b := by
  induction hle with
  | refl => exact h
  | step _ ih => exact inRootLayout_mono ih

/-- The places of the views for which so many calls are enough. -/
def returning (screen : ProtoScreen) (layoutType : String) (fuel : Nat) : Finset Nat :=
  (Finset.range screen.views.length).filter fun i =>
    ((screen.views[i]?).bind (screen.inRootLayout layoutType fuel)).isSome

theorem mem_returning {fuel i : Nat} :
    i ∈ screen.returning layoutType fuel ↔
      ∃ view, screen.views[i]? = some view ∧
        (screen.inRootLayout layoutType fuel view).isSome := by
  rw [returning, Finset.mem_filter, Finset.mem_range]
  constructor
  · rintro ⟨_, h⟩
    rwa [Option.isSome_bind, Option.any_eq_true] at h
  · rintro ⟨view, hview, h⟩
    refine ⟨(List.getElem?_eq_some_iff.mp hview).1, ?_⟩
    rwa [hview, Option.bind_some]

/-- A view needs one more call than its parent. -/
theorem isSome_inRootLayout_succ {fuel : Nat} {view : ProtoView} :
    (screen.inRootLayout layoutType (fuel + 1) view).isSome ↔
      view.parentSeqId = -1 ∨
        0 ≤ view.parentSeqId ∧ view.parentSeqId.toNat ∈ screen.returning layoutType fuel := by
  rw [inRootLayout, mem_returning]
  by_cases hroot : view.parentSeqId = -1
  · simp only [hroot, if_true, Option.isSome_some, true_or]
  · rw [if_neg hroot, Option.isSome_bind, Option.any_eq_true, view?]
    simp only [hroot, false_or, Option.isSome_map]
    by_cases hneg : view.parentSeqId < 0
    · rw [if_pos hneg]
      constructor
      · rintro ⟨_, hparent, _⟩
        cases hparent
      · rintro ⟨hnonneg, _⟩
        exact absurd hneg (not_lt.mpr hnonneg)
    · rw [if_neg hneg]
      exact ⟨fun hparent => ⟨not_lt.mp hneg, hparent⟩, And.right⟩

theorem returning_mono : Monotone (screen.returning layoutType) := by
  intro fuel fuel' hle i hi
  rw [mem_returning] at hi ⊢
  obtain ⟨view, hview, h⟩ := hi
  obtain ⟨b, hb⟩ := Option.isSome_iff_exists.mp h
  exact ⟨view, hview, Option.isSome_of_eq_some (inRootLayout_le hle hb)⟩

theorem card_returning_le (fuel : Nat) :
    (screen.returning layoutType fuel).card ≤ screen.views.length := by
  have := Finset.card_filter_le (Finset.range screen.views.length) fun i =>
    ((screen.views[i]?).bind (screen.inRootLayout layoutType fuel)).isSome
  rwa [Finset.card_range] at this

theorem returning_succ_congr {fuel fuel' : Nat}
    (h : screen.returning layoutType fuel = screen.returning layoutType fuel') :
    screen.returning layoutType (fuel + 1) = screen.returning layoutType (fuel' + 1) := by
  ext i
  simp only [mem_returning, isSome_inRootLayout_succ, h]

/-- The sets grow until one more call adds nothing, and from there on they stay the same. -/
theorem returning_subset (fuel : Nat) :
    screen.returning layoutType fuel ⊆ screen.returning layoutType screen.views.length := by
  obtain hle | hle := Nat.le_total fuel screen.views.length
  · exact returning_mono hle
  · have hcard : (screen.returning layoutType fuel).card =
        (screen.returning layoutType screen.views.length).card := by
      apply Nat.stabilises_of_monotone (f := fun k => (screen.returning layoutType k).card)
        (fun _ _ hle => Finset.card_le_card (returning_mono hle)) card_returning_le ?_ hle
      intro k hk
      have hsame := Finset.eq_of_subset_of_card_le (returning_mono (Nat.le_succ k)) hk.ge
      exact congrArg Finset.card (returning_succ_congr hsame)
    exact (Finset.eq_of_subset_of_card_le (returning_mono hle) hcard.le).ge

/-- A call that returns does so with as many calls as there are views, and one. -/
theorem inRootLayout_stable {fuel : Nat} {view : ProtoView} {b : Bool}
    (h : screen.inRootLayout layoutType fuel view = some b) :
    screen.inRootLayout layoutType (screen.views.length + 1) view = some b := by
  have hreturns : (screen.inRootLayout layoutType (screen.views.length + 1) view).isSome := by
    have hmore := isSome_inRootLayout_succ.mp (Option.isSome_of_eq_some (inRootLayout_mono h))
    rw [isSome_inRootLayout_succ]
    exact hmore.imp_right fun hparent => ⟨hparent.1, returning_subset fuel hparent.2⟩
  obtain ⟨b', hb'⟩ := Option.isSome_iff_exists.mp hreturns
  have hmost := inRootLayout_le (Nat.le_max_left fuel (screen.views.length + 1)) h
  rw [inRootLayout_le (Nat.le_max_right ..) hb'] at hmost
  exact hb'.trans hmost

end Calls

end ProtoScreen

/-! ## The screens that are accepted -/

/-- `Properties::CONSTRAINT_LAYOUT_CONSTRAINTS`. -/
def constraintLayoutConstraints : List Name :=
  [.layoutConstraintTopToBottomOf, .layoutConstraintBottomToBottomOf,
    .layoutConstraintTopToTopOf, .layoutConstraintBottomToTopOf, .layoutConstraintLeftToLeftOf,
    .layoutConstraintLeftToRightOf, .layoutConstraintRightToRightOf,
    .layoutConstraintRightToLeftOf]

/-- The `LEFT_`, `RIGHT_`, `TOP_` and `BOTTOM_CONSTRAINT_LAYOUT_CONSTRAINTS`. -/
def sideConstraints : Orientation → Side → List Name
  | .horizontal, .start => [.layoutConstraintLeftToLeftOf, .layoutConstraintLeftToRightOf]
  | .horizontal, .end => [.layoutConstraintRightToRightOf, .layoutConstraintRightToLeftOf]
  | .vertical, .start => [.layoutConstraintTopToTopOf, .layoutConstraintTopToBottomOf]
  | .vertical, .end => [.layoutConstraintBottomToTopOf, .layoutConstraintBottomToBottomOf]

structure ConstraintStats where
  total : Nat := 0
  unresolved : Nat := 0
  ignored : Nat := 0

namespace ProtoScreen

def viewsInsideScreen (screen : ProtoScreen) : Option Bool :=
  (screen.view? 0).map fun root => screen.views.all fun view =>
    !(view.xleft < root.xleft || root.xright < view.xright || view.ytop < root.ytop ||
      root.ybottom < view.ybottom)

def negativeViewSize (screen : ProtoScreen) : Bool :=
  screen.views.any fun view => view.xright ≤ view.xleft || view.ybottom ≤ view.ytop

def hasGuideline (screen : ProtoScreen) : Bool :=
  screen.views.any fun view => view.type = guideline

section Accepted
variable (reader : Reader) (screen : ProtoScreen)

/-- `CountProperties`. -/
def countProperties (view : ProtoView) (names : List Name) : Nat :=
  (names.filter fun name => reader.hasProperty view (.written name)).length

def validNumberOfConstraints (view : ProtoView) : Bool :=
  let count (o : Orientation) (side : Side) := countProperties reader view (sideConstraints o side)
  view.type = guideline ||
    !(1 < count .horizontal .start || 1 < count .horizontal .end ||
      count .horizontal .start + count .horizontal .end = 0 ||
      1 < count .vertical .start || 1 < count .vertical .end ||
      count .vertical .start + count .vertical .end = 0)

def validConstraints : Option Bool :=
  screen.views.allM fun view =>
    if view.parentSeqId = -1 then some true
    else (screen.view? view.parentSeqId).map fun parent =>
      parent.type ≠ constraintLayout || validNumberOfConstraints reader view

/-- One round of the inner loop of `ForEachConstraint`. -/
def countConstraint (view : ProtoView) (ignored : Bool) (stats : ConstraintStats) (name : Name) :
    Option ConstraintStats :=
  match reader.property view (.written name) with
  | none => some stats
  | some id =>
    if ignored then
      some { stats with total := stats.total + 1, ignored := stats.ignored + 1 }
    else (screen.findViewById view id).map fun target =>
      { stats with
        total := stats.total + 1
        unresolved := stats.unresolved + if target.isNone then 1 else 0 }

/-- `ForEachConstraint` for a constraint layout, with a callback that does nothing. -/
def forEachConstraint : Option ConstraintStats :=
  screen.views.foldlM (fun stats view =>
    if view.parentSeqId = -1 then some stats
    else (screen.inRootConstraintLayout view).bind fun inRoot =>
      constraintLayoutConstraints.foldlM (countConstraint reader screen view !inRoot) stats) {}

def resolvedConstraints : Option Bool :=
  (forEachConstraint reader screen).map fun stats => stats.unresolved = 0

def hasAnyProperty (names : List InputName) : Bool :=
  screen.views.any fun view => names.any (reader.hasProperty view)

def hasBaselineConstraint : Bool :=
  hasAnyProperty reader screen [.layoutConstraintBaselineToBaselineOf]

def hasChainConstraint : Bool :=
  hasAnyProperty reader screen
    [.layoutConstraintHorizontalChainStyle, .layoutConstraintVerticalChainStyle]

def validMargins : Option Bool :=
  screen.views.allM fun view =>
    [Name.layoutMarginLeft, .layoutMarginRight, .layoutMarginTop, .layoutMarginBottom].allM
      fun margin => (reader.getMarginFromProto view margin).map fun x => 0 ≤ x

/-- The first check that fails, by the name it is counted under. -/
def firstInvalid : List (String × Option Bool) → Option String
  | [] => some "ok"
  | (name, valid) :: checks => valid.bind fun
    | true => firstInvalid checks
    | false => some name

/-- What `ValidApp` counts a screen as. -/
def validAppStats : Option String :=
  firstInvalid
    [("views_outsideapp", screen.viewsInsideScreen),
      ("baseline_constraint", some !hasBaselineConstraint reader screen),
      ("invalid_constraint", validConstraints reader screen),
      ("unresolved_constraint", resolvedConstraints reader screen),
      ("has_guideline", some !screen.hasGuideline),
      ("has_chain_constraints", some !hasChainConstraint reader screen),
      ("invalid_margins", validMargins reader screen),
      ("negative_view_size", some !screen.negativeViewSize)]

def validApp : Option Bool := (validAppStats reader screen).map fun name => name = "ok"

end Accepted

end ProtoScreen

end InferUI.Document
