import InferUI.Graph
import InferUI.ListLemmas
import Mathlib.Data.List.Sort

/-!
# Rendering an app

What `ToJSON` sends of an app to the layout solver, what comes back, and the copies and the
comparisons of apps that `syn_helper.cpp` makes around it. The apps have no padding and default
id strings, so a rendered view has the id of the view it was made from. The solver is any
function of the document.
-/

namespace InferUI
variable {Prob : Type}

/-! ## Copies -/

/-- `CHECK`s of the constructor. -/
def Attribute.Checked (attr : Attribute Prob) : Prop :=
  attr.tgtSecondary.isSome = attr.type.isCenterAnchor ∧ 0 ≤ attr.valuePrimary ∧
    0 ≤ attr.valueSecondary

instance (attr : Attribute Prob) : Decidable attr.Checked := inferInstanceAs (Decidable (_ ∧ _))

namespace App

/-- `&findView(p->id)`. -/
def rebind (app : App Prob) (p : Nat) : Option Nat := (app.findView (app.idOf p)).map (·.pos)

def copyAttribute (app : App Prob) (attr : Attribute Prob) : Option (Attribute Prob) := do
  let src ← app.rebind attr.src
  let primary ← app.rebind attr.tgtPrimary
  let secondary ← attr.tgtSecondary.mapM app.rebind
  let copy := { attr with src := src, tgtPrimary := primary, tgtSecondary := secondary }
  if copy.Checked then some copy else none

/-- A view made anew, without an entry in `view_size`, and its attributes copied. -/
def copyView (app : App Prob) (view : View Prob) : Option (View Prob) := do
  let horizontal ← (view.attributes .horizontal).mapM app.copyAttribute
  let vertical ← (view.attributes .vertical).mapM app.copyAttribute
  some { view with
    attributes := fun
      | .horizontal => horizontal
      | .vertical => vertical
    viewSize := fun _ => none }

/-- The copy constructor and `operator=`. -/
def copy (app : App Prob) : Option (App Prob) := (app.views.mapM app.copyView).map ofViews

end App

/-! ## The document -/

structure AttributeJson where
  type : ConstraintType
  viewSize : ViewSize
  valuePrimary : Int
  valueSecondary : Int
  tgtPrimary : Int
  tgtSecondary : Option Int
  bias : ℚ
  deriving DecidableEq

structure ViewJson where
  id : Int
  width : Int
  height : Int
  attributes : Orientation → Option AttributeJson

structure LayoutJson where
  layout : List ViewJson
  xOffset : Int
  yOffset : Int

/-- A view of the rendered layout. -/
structure Location where
  xleft : Int
  ytop : Int
  xright : Int
  ybottom : Int
  deriving DecidableEq

/-- `sendPost` of the layout solver: the locations of the views of a document. -/
abbrev Solver := LayoutJson → Nat → Location

def Location.startAt (location : Location) : Orientation → Int
  | .horizontal => location.xleft
  | .vertical => location.ytop

def Location.endAt (location : Location) : Orientation → Int
  | .horizontal => location.xright
  | .vertical => location.ybottom

namespace App

def attributeJson (app : App Prob) (attr : Attribute Prob) : AttributeJson :=
  ⟨attr.type, attr.viewSize, attr.valuePrimary, attr.valueSecondary, app.idOf attr.tgtPrimary,
    attr.tgtSecondary.map app.idOf, attr.bias⟩

def viewJson (app : App Prob) (view : View Prob) : ViewJson :=
  ⟨view.id, view.width, view.height, fun o => (view.attributes o).map app.attributeJson⟩

/-- `CHECK_EQ(attributes.size(), 2)` of every view but the content frame. -/
def Complete (app : App Prob) : Prop :=
  ∀ view ∈ app.views, view.isContentFrame = false → ∀ o ∈ [Orientation.horizontal, .vertical],
    (view.attributes o).isSome = true

instance (app : App Prob) : Decidable app.Complete :=
  inferInstanceAs (Decidable (∀ view ∈ app.views, _))

/-- What the document tells the solver of an app. -/
def document (app : App Prob) : LayoutJson :=
  ⟨app.views.map app.viewJson, (app.views[0]?).elim 0 (·.xleft), (app.views[0]?).elim 0 (·.ytop)⟩

def toJson (app : App Prob) : Option LayoutJson :=
  if app.Complete then some app.document else none

/-- `JsonToView` of a component that keeps the id it was sent with. -/
def jsonToView (location : Location) (view : View Prob) : View Prob :=
  { xleft := location.xleft, ytop := location.ytop, xright := location.xright,
    ybottom := location.ybottom, id := view.id }

/-- `JsonToApp` of the solver's answer for an app. -/
def rendered (solver : Solver) (app : App Prob) (json : LayoutJson) : App Prob :=
  ofViews (app.views.map fun view => jsonToView (solver json view.pos) view)

/-- `JsonToApp(solver.sendPost(app.ToJSON()))`. -/
def render (solver : Solver) (app : App Prob) : Option (App Prob) :=
  app.toJson.map (app.rendered solver)

/-! ## Comparisons -/

def viewMatch (a b : View Prob) : Bool :=
  decide (a.xleft = b.xleft) && decide (a.xright = b.xright) &&
    decide (a.ytop = b.ytop) && decide (a.ybottom = b.ybottom)

def appMatch (refApp synApp : App Prob) : Bool :=
  decide (refApp.views.length = synApp.views.length) &&
    (refApp.views.zip synApp.views).all fun (a, b) => viewMatch a b

/-- `FindNonMatchingViews`; `none` is its failed `CHECK_EQ`. -/
def findNonMatchingViews (refApp synApp : App Prob) (o : Orientation) : Option (List Int) :=
  if refApp.views.length = synApp.views.length then
    some ((refApp.views.zip synApp.views).filterMap fun (a, b) =>
      if a.startAt o ≠ b.startAt o ∨ a.endAt o ≠ b.endAt o then some a.id else none)
  else none

end App

/-- `std::set_intersection` of two lists: what is smaller is skipped, what is equal is taken. -/
def setIntersection : List Int → List Int → List Int
  | [], _ => []
  | a :: as, bs =>
    match bs.dropWhile (· < a) with
    | [] => []
    | b :: bs => if b = a then a :: setIntersection as bs else setIntersection as (b :: bs)

namespace App

/-- `IsIndependent`. The search for the referenced nodes visits each view at most once, so it
is never deeper than there are views. -/
def isIndependent (app : App Prob) (o : Orientation) (p : Nat) (ids : List Int) : Option Bool :=
  (app.referencedNodes o app.views.length p).map fun nodes =>
    decide ((setIntersection ids (nodes.dedup.insertionSort (· ≤ ·))).length = 1)

/-! ## The same views -/

end App

/-- A view without its attributes and fixed sizes. -/
def View.bare (view : View Prob) : View Prob :=
  { view with attributes := fun _ => none, viewSize := fun _ => none }

def View.unsized (view : View Prob) : View Prob := { view with viewSize := fun _ => none }

namespace App

/-- The same views at the same coordinates, with whatever attributes. -/
def Like (app app' : App Prob) : Prop := app'.views.map View.bare = app.views.map View.bare

def SameAttributes (app app' : App Prob) : Prop :=
  ∀ o p, app'.getAttribute o p = app.getAttribute o p

section
variable {app app' app'' : App Prob} {o : Orientation}

theorem Like.refl (app : App Prob) : Like app app := rfl

theorem Like.trans (h : Like app app') (h' : Like app' app'') : Like app app'' := Eq.trans h' h

theorem Like.length (h : Like app app') : app'.views.length = app.views.length := by
  simpa using congrArg List.length h

theorem Like.view (h : Like app app') {p : Nat} {view : View Prob}
    (hview : app.views[p]? = some view) :
    ∃ view', app'.views[p]? = some view' ∧ view'.bare = view.bare := by
  have hget := congrArg (·[p]?) h
  simp only [List.getElem?_map, hview, Option.map_some, Option.map_eq_some_iff] at hget
  exact hget

theorem Like.idOf (h : Like app app') (p : Nat) : app'.idOf p = app.idOf p := by
  have hget := congrArg (·[p]?) h
  simp only [List.getElem?_map] at hget
  unfold App.idOf
  cases hv : app.views[p]? with
  | none =>
    rw [hv, Option.map_none, Option.map_eq_none_iff] at hget
    rw [hget]
  | some view =>
    rw [hv, Option.map_some, Option.map_eq_some_iff] at hget
    obtain ⟨view', hv', hbare⟩ := hget
    rw [hv']
    have hid : view'.bare.id = view.bare.id := by rw [hbare]
    exact hid

theorem Like.ids (h : Like app app') : app'.views.map (·.id) = app.views.map (·.id) := by
  have hids := congrArg (List.map View.id) h
  rw [List.map_map, List.map_map] at hids
  exact hids

theorem like_applyAttribute (app : App Prob) (o : Orientation) (p : Nat)
    (attr : Attribute Prob) : Like app (app.applyAttribute o p attr) := by
  apply List.ext_getElem?
  intro i
  rw [List.getElem?_map, List.getElem?_map, App.applyAttribute, List.getElem?_modify]
  cases app.views[i]? with
  | none => rfl
  | some view => by_cases h : p = i <;> simp [h, View.bare, View.applyAttribute]

/-- Attributes refer to views of the app. -/
def Pointed (app : App Prob) : Prop :=
  ∀ o p attr, app.getAttribute o p = some attr → attr.src = p ∧
    attr.tgtPrimary < app.views.length ∧ ∀ t, attr.tgtSecondary = some t → t < app.views.length

theorem lt_of_getAttribute {p : Nat} {attr : Attribute Prob}
    (h : app.getAttribute o p = some attr) : p < app.views.length := by
  by_contra hle
  rw [getAttribute_of_length_le app (by omega)] at h
  cases h

theorem rebind_eq (hids : (app.views.map (·.id)).Nodup) {p : Nat} (hp : p < app.views.length) :
    app.rebind p = some p := by
  rw [rebind, app.idOf_eq hp, findView_eq_some hids (List.getElem_mem hp), Option.map_some,
    app.getElem_pos hp]

theorem copyAttribute_eq (hids : (app.views.map (·.id)).Nodup) {attr : Attribute Prob}
    (hsrc : attr.src < app.views.length) (hprimary : attr.tgtPrimary < app.views.length)
    (hsecondary : ∀ t, attr.tgtSecondary = some t → t < app.views.length) :
    app.copyAttribute attr = if attr.Checked then some attr else none := by
  have hrebound : attr.tgtSecondary.mapM app.rebind = some attr.tgtSecondary := by
    cases hs : attr.tgtSecondary with
    | none => rfl
    | some t => simp [rebind_eq hids (hsecondary t hs)]
  simp [copyAttribute, rebind_eq hids hsrc, rebind_eq hids hprimary, hrebound]

/-- A view of an app whose attributes point into it is copied when they pass the checks. -/
theorem copyView_eq_some (hids : (app.views.map (·.id)).Nodup) (hpointed : app.Pointed) {p : Nat}
    {view copy : View Prob} (hview : app.views[p]? = some view) :
    app.copyView view = some copy ↔ (∀ o attr, view.attributes o = some attr → attr.Checked) ∧
      copy = { view with viewSize := fun _ => none } := by
  have hcopy (o : Orientation) (attr' : Option (Attribute Prob)) :
      (view.attributes o).mapM app.copyAttribute = some attr' ↔
        (∀ attr, view.attributes o = some attr → attr.Checked) ∧ view.attributes o = attr' := by
    cases ha : view.attributes o with
    | none => simp
    | some attr =>
      have hget : app.getAttribute o p = some attr := by simp [getAttribute, hview, ha]
      obtain ⟨hsrc, hprimary, hsecondary⟩ := hpointed o p attr hget
      have hlt := lt_of_getAttribute hget
      rw [Option.mapM_some, copyAttribute_eq hids (hsrc ▸ hlt) hprimary hsecondary]
      by_cases hc : attr.Checked <;> simp [hc]
  simp only [copyView, Option.bind_eq_bind, Option.bind_eq_some_iff, hcopy, Option.some.injEq]
  constructor
  · rintro ⟨_, ⟨hh, rfl⟩, _, ⟨hv, rfl⟩, rfl⟩
    refine ⟨fun o => ?_, ?_⟩
    · cases o
      · exact hh
      · exact hv
    · congr 1
      funext o
      cases o <;> rfl
  · rintro ⟨hchecked, rfl⟩
    refine ⟨_, ⟨hchecked .horizontal, rfl⟩, _, ⟨hchecked .vertical, rfl⟩, ?_⟩
    congr 1
    funext o
    cases o <;> rfl

/-- A copy has the views and the attributes of the app. It is made when these pass the checks. -/
theorem copy_eq_some (hids : (app.views.map (·.id)).Nodup) (hpointed : app.Pointed)
    (h : app.copy = some app') :
    Like app app' ∧ SameAttributes app app' ∧
      ∀ o p attr, app.getAttribute o p = some attr → attr.Checked := by
  rw [copy, Option.map_eq_some_iff] at h
  obtain ⟨views, hviews, rfl⟩ := h
  have hget (p : Nat) (view : View Prob) (hview : app.views[p]? = some view) :
      (∀ o attr, view.attributes o = some attr → attr.Checked) ∧
        views[p]? = some { view with viewSize := fun _ => none } := by
    have hall := congrArg (·[p]?) (mapM_eq_some_iff.mp hviews)
    simp only [List.getElem?_map, hview, Option.map_some] at hall
    obtain ⟨copy, hcopy, he⟩ := Option.map_eq_some_iff.mp hall.symm
    obtain ⟨hchecked, rfl⟩ := (copyView_eq_some hids hpointed hview).mp he.symm
    exact ⟨hchecked, hcopy⟩
  have hsome (p : Nat) : (ofViews views).views[p]? =
      (app.views[p]?).map fun view => { view with viewSize := fun _ => none } := by
    rw [views_ofViews]
    cases hview : app.views[p]? with
    | some view =>
      rw [(hget p view hview).2, Option.map_some, Option.map_some, ← app.pos_eq p view hview]
    | none =>
      have hlength : views.length = app.views.length := by
        simpa using (congrArg List.length (mapM_eq_some_iff.mp hviews)).symm
      have hle := List.getElem?_eq_none_iff.mp hview
      rw [List.getElem?_eq_none (by omega)]
      rfl
  refine ⟨?_, ?_, ?_⟩
  · apply List.ext_getElem?
    intro p
    rw [List.getElem?_map, List.getElem?_map, hsome, Option.map_map]
    rfl
  · intro o p
    rw [getAttribute, getAttribute, hsome]
    cases app.views[p]? <;> rfl
  · intro o p attr hattr
    rw [getAttribute, Option.bind_eq_some_iff] at hattr
    obtain ⟨view, hview, hattr⟩ := hattr
    exact (hget p view hview).1 o attr hattr

theorem copy_isSome (hids : (app.views.map (·.id)).Nodup) (hpointed : app.Pointed)
    (hchecked : ∀ o p attr, app.getAttribute o p = some attr → attr.Checked) :
    ∃ app', app.copy = some app' := by
  cases hcopy : app.views.mapM app.copyView with
  | some views => exact ⟨ofViews views, by rw [copy, hcopy, Option.map_some]⟩
  | none =>
    obtain ⟨view, hmem, hnone⟩ := mapM_eq_none_iff.mp hcopy
    obtain ⟨p, hview⟩ := List.mem_iff_getElem?.mp hmem
    have hview_checked : ∀ o attr, view.attributes o = some attr → attr.Checked :=
      fun o attr ha => hchecked o p attr (by simp [getAttribute, hview, ha])
    have hsome : app.copyView view = some { view with viewSize := fun _ => none } :=
      (copyView_eq_some hids hpointed hview).mpr ⟨hview_checked, rfl⟩
    rw [hnone] at hsome
    cases hsome

/-! ## Rendering -/

theorem unsized_eq (hlike : Like app app') (hattrs : SameAttributes app app') :
    app'.views.map View.unsized = app.views.map View.unsized := by
  apply List.ext_getElem?
  intro p
  rw [List.getElem?_map, List.getElem?_map]
  cases hview : app.views[p]? with
  | none =>
    have hle := List.getElem?_eq_none_iff.mp hview
    rw [List.getElem?_eq_none (by rw [hlike.length]; exact hle)]
  | some view =>
    obtain ⟨view', hview', hbare⟩ := hlike.view hview
    have ho (o : Orientation) : view'.attributes o = view.attributes o := by
      simpa [getAttribute, hview, hview'] using hattrs o p
    have he : view'.unsized = { view'.bare with attributes := view'.attributes } := rfl
    rw [hview', Option.map_some, Option.map_some, he, hbare, funext ho]
    rfl

/-- Apps with the same views and attributes give one document. -/
theorem toJson_congr (hlike : Like app app') (hattrs : SameAttributes app app') :
    app'.toJson = app.toJson := by
  have hunsized := unsized_eq hlike hattrs
  have hcomplete (app : App Prob) : app.Complete ↔ ∀ view ∈ app.views.map View.unsized,
      view.isContentFrame = false → ∀ o ∈ [Orientation.horizontal, .vertical],
        (view.attributes o).isSome = true := by
    rw [List.forall_mem_map]
    rfl
  have hdocument : app'.document = app.document := by
    have hjson : app'.viewJson = app.viewJson := by
      funext view
      have hattr : app'.attributeJson = app.attributeJson := by
        funext attr
        rw [attributeJson, attributeJson, hlike.idOf, funext hlike.idOf]
      rw [viewJson, viewJson, hattr]
    have hviews (app : App Prob) : app.views.map app.viewJson =
        (app.views.map View.unsized).map app.viewJson := by
      rw [List.map_map]
      rfl
    have hoffset (app : App Prob) (f : View Prob → Int) (hf : ∀ view, f view.unsized = f view) :
        (app.views[0]?).elim 0 f = ((app.views.map View.unsized)[0]?).elim 0 f := by
      rw [List.getElem?_map]
      cases app.views[0]? with
      | none => rfl
      | some view => exact (hf view).symm
    rw [document, document, hviews app', hviews app, hunsized, hjson,
      hoffset app' (·.xleft) fun _ => rfl, hoffset app' (·.ytop) fun _ => rfl, hunsized,
      ← hoffset app (·.xleft) fun _ => rfl, ← hoffset app (·.ytop) fun _ => rfl]
  have hiff : app'.Complete ↔ app.Complete := by
    rw [hcomplete app', hcomplete app, hunsized]
  rw [toJson, toJson, hdocument]
  simp only [hiff]

theorem rendered_congr (solver : Solver) (hlike : Like app app') (json : LayoutJson) :
    app'.rendered solver json = app.rendered solver json := by
  have hbare (app : App Prob) : app.views.map (fun view => jsonToView (solver json view.pos) view) =
      (app.views.map View.bare).map fun view => jsonToView (solver json view.pos) view := by
    rw [List.map_map]
    rfl
  rw [rendered, rendered, hbare app', hbare app, hlike]

theorem render_congr (solver : Solver) (hlike : Like app app')
    (hattrs : SameAttributes app app') : app'.render solver = app.render solver := by
  rw [render, render, toJson_congr hlike hattrs, funext (rendered_congr solver hlike)]

/-- The views of a rendered app, one for each view of the app. -/
theorem views_rendered (solver : Solver) (app : App Prob) (json : LayoutJson) :
    (app.rendered solver json).views = app.views.map fun view =>
      { jsonToView (solver json view.pos) view with pos := view.pos } := by
  apply List.ext_getElem?
  intro p
  rw [rendered, views_ofViews, List.getElem?_map, List.getElem?_map]
  cases hview : app.views[p]? with
  | none => rfl
  | some view => simp [app.pos_eq p view hview]

/-- The location of a view differs from where the view is. -/
def Mismatch (view : View Prob) (location : Location) (o : Orientation) : Prop :=
  view.startAt o ≠ location.startAt o ∨ view.endAt o ≠ location.endAt o

instance (view : View Prob) (location : Location) (o : Orientation) :
    Decidable (Mismatch view location o) := inferInstanceAs (Decidable (_ ∨ _))

/-- The ids of the views the solver puts elsewhere. -/
def mismatching (solver : Solver) (app : App Prob) (json : LayoutJson) (o : Orientation) :
    List Int :=
  (app.views.filter fun view => Mismatch view (solver json view.pos) o).map (·.id)

theorem findNonMatchingViews_rendered (solver : Solver) (app : App Prob) (json : LayoutJson)
    (o : Orientation) :
    findNonMatchingViews app (app.rendered solver json) o =
      some (app.mismatching solver json o) := by
  have hlength : app.views.length = (app.rendered solver json).views.length := by
    rw [views_rendered, List.length_map]
  rw [findNonMatchingViews, if_pos hlength, views_rendered, ← List.map_prod_left_eq_zip,
    List.filterMap_map, mismatching, ← List.filterMap_eq_filter, List.map_filterMap]
  congr 1
  apply List.filterMap_congr
  intro view _
  have hiff : (view.startAt o ≠ (jsonToView (solver json view.pos) view).startAt o ∨
      view.endAt o ≠ (jsonToView (solver json view.pos) view).endAt o) ↔
      Mismatch view (solver json view.pos) o := by
    cases o <;> rfl
  by_cases h : Mismatch view (solver json view.pos) o
  · have hne := hiff.mpr h
    cases o <;> exact (if_pos hne).trans (by simp [Option.guard, h])
  · have hne := mt hiff.mp h
    cases o <;> exact (if_neg hne).trans (by simp [Option.guard, h])

theorem appMatch_rendered (solver : Solver) (app : App Prob) (json : LayoutJson) :
    appMatch app (app.rendered solver json) = true ↔ ∀ o, app.mismatching solver json o = [] := by
  have hlength : app.views.length = (app.rendered solver json).views.length := by
    rw [views_rendered, List.length_map]
  rw [appMatch, decide_eq_true hlength, Bool.true_and, views_rendered,
    ← List.map_prod_left_eq_zip, List.all_map, List.all_eq_true]
  simp only [mismatching, List.map_eq_nil_iff, List.filter_eq_nil_iff, decide_eq_true_eq]
  constructor
  · intro h o view hview
    have := h view hview
    cases o <;> simp_all [viewMatch, jsonToView, Mismatch, View.startAt, View.endAt,
      Location.startAt, Location.endAt]
  · intro h view hview
    have hx := h .horizontal view hview
    have hy := h .vertical view hview
    simp only [Mismatch, View.startAt, View.endAt, Location.startAt, Location.endAt, not_or,
      ne_eq, not_not] at hx hy
    simp [viewMatch, jsonToView, hx, hy]

/-- The locations the solver gives the views are those of the app. -/
def Matches (solver : Solver) (app : App Prob) : Prop :=
  ∃ synApp, app.render solver = some synApp ∧ appMatch app synApp = true

theorem appMatch_congr (hlike : Like app app') (synApp : App Prob) :
    appMatch app' synApp = appMatch app synApp := by
  have hbare (app : App Prob) : ((app.views.zip synApp.views).all fun (a, b) => viewMatch a b) =
      ((app.views.map View.bare).zip synApp.views).all fun (a, b) => viewMatch a b := by
    rw [List.zip_map_left, List.all_map]
    rfl
  rw [appMatch, appMatch, hlike.length, hbare app', hbare app, hlike]

theorem matches_congr (solver : Solver) (hlike : Like app app')
    (hattrs : SameAttributes app app') : Matches solver app' ↔ Matches solver app := by
  simp only [Matches, render_congr solver hlike hattrs, appMatch_congr hlike]

/-! ## Apps the constructors make -/

/-- Attributes on every view but the root, which refer to views of the app and pass the checks. -/
structure WellMade (app : App Prob) : Prop where
  rooted : app.Rooted
  complete : app.Complete
  pointed : app.Pointed
  checked : ∀ o p attr, app.getAttribute o p = some attr → attr.Checked

theorem complete_iff : app.Complete ↔
    ∀ p < app.views.length, app.idOf p ≠ 0 → ∀ o, (app.getAttribute o p).isSome = true := by
  constructor
  · intro h p hp hid o
    have hframe : app.views[p].isContentFrame = false := by
      rw [app.idOf_eq hp] at hid
      simpa [View.isContentFrame] using hid
    have hsome := h _ (List.getElem_mem hp) hframe o (by cases o <;> simp)
    simpa [getAttribute, hp] using hsome
  · intro h view hview hframe o _
    obtain ⟨p, hp, rfl⟩ := List.getElem_of_mem hview
    have hsome := h p hp (by simpa [app.idOf_eq hp, View.isContentFrame] using hframe) o
    simpa [getAttribute, hp] using hsome

theorem WellMade.linked (h : app.WellMade) (o : Orientation) : app.Linked o := by
  intro p attr ha
  obtain ⟨_, hprimary, hsecondary⟩ := h.pointed o p attr ha
  refine ⟨hprimary, fun hrel => ?_⟩
  have hsome := (h.checked o p attr ha).1
  rw [ConstraintType.isCenterAnchor, hrel] at hsome
  obtain ⟨r, hr⟩ := Option.isSome_iff_exists.mp hsome
  exact ⟨r, hsecondary r hr, hr⟩

theorem WellMade.copy (h : app.WellMade) :
    ∃ app', app.copy = some app' ∧ Like app app' ∧ SameAttributes app app' := by
  obtain ⟨app', hcopy⟩ := copy_isSome h.rooted.distinct h.pointed h.checked
  obtain ⟨hlike, hattrs, _⟩ := copy_eq_some h.rooted.distinct h.pointed hcopy
  exact ⟨app', hcopy, hlike, hattrs⟩

theorem WellMade.render (h : app.WellMade) (solver : Solver) :
    app.render solver = some (app.rendered solver app.document) := by
  rw [App.render, toJson, if_pos h.complete, Option.map_some]

/-- An app with the same views is as well made when each of its attributes comes of one of the
app's that has the same targets. -/
theorem WellMade.of_attributes (h : app.WellMade) (hlike : Like app app')
    (hattrs : ∀ o p, app'.getAttribute o p = app.getAttribute o p ∨
      ∃ attr attr', app.getAttribute o p = some attr ∧ app'.getAttribute o p = some attr' ∧
        attr'.src = attr.src ∧ attr'.tgtPrimary = attr.tgtPrimary ∧
        attr'.tgtSecondary = attr.tgtSecondary ∧ attr'.Checked) : app'.WellMade where
  rooted := h.rooted.of_ids hlike.length hlike.idOf
  complete := by
    rw [complete_iff]
    intro p hp hid o
    rw [hlike.length] at hp
    rw [hlike.idOf] at hid
    obtain he | ⟨attr, attr', _, he, _⟩ := hattrs o p
    · rw [he]
      exact complete_iff.mp h.complete p hp hid o
    · rw [he]
      rfl
  pointed := by
    intro o p attr'' ha
    rw [hlike.length]
    obtain he | ⟨attr, attr', hattr, he, hsrc, hprimary, hsecondary, _⟩ := hattrs o p
    · exact h.pointed o p attr'' (he ▸ ha)
    · obtain rfl := Option.some.inj (he.symm.trans ha)
      rw [hsrc, hprimary, hsecondary]
      exact h.pointed o p attr hattr
  checked := by
    intro o p attr'' ha
    obtain he | ⟨attr, attr', _, he, _, _, _, hchecked⟩ := hattrs o p
    · exact h.checked o p attr'' (he ▸ ha)
    · obtain rfl := Option.some.inj (he.symm.trans ha)
      exact hchecked

theorem WellMade.applyAttribute (h : app.WellMade) {p : Nat} {attr attr' : Attribute Prob}
    (hattr : app.getAttribute o p = some attr) (hsrc : attr'.src = attr.src)
    (hprimary : attr'.tgtPrimary = attr.tgtPrimary)
    (hsecondary : attr'.tgtSecondary = attr.tgtSecondary) (hchecked : attr'.Checked) :
    (app.applyAttribute o p attr').WellMade := by
  apply h.of_attributes (like_applyAttribute app o p attr')
  intro o' q
  rw [getAttribute_applyAttribute app (lt_of_getAttribute hattr)]
  split
  · rename_i hq
    obtain ⟨rfl, rfl⟩ := hq
    exact Or.inr ⟨attr, attr', hattr, rfl, hsrc, hprimary, hsecondary, hchecked⟩
  · exact Or.inl rfl

/-! ## Independent views -/

/-- Only what is smaller than `a` is skipped. -/
theorem mem_dropWhile_lt {bs : List Int} {a x : Int} (hx : a ≤ x) :
    x ∈ bs.dropWhile (· < a) ↔ x ∈ bs := by
  constructor
  · exact fun h => (List.dropWhile_sublist _).subset h
  · intro h
    have happend : bs.takeWhile (· < a) ++ bs.dropWhile (· < a) = bs :=
      List.takeWhile_append_dropWhile
    rw [← happend] at h
    obtain h | h := List.mem_append.mp h
    · have := List.all_eq_true.mp List.all_takeWhile x h
      simp only [decide_eq_true_eq] at this
      omega
    · exact h

theorem le_of_dropWhile_lt {bs bs' : List Int} {a b : Int}
    (h : bs.dropWhile (· < a) = b :: bs') : a ≤ b := by
  have := List.head_dropWhile_not (l := bs) (fun y => decide (y < a)) (by simp [h])
  simp only [h, List.head_cons, decide_eq_false_iff_not] at this
  omega

/-- On ascending lists `set_intersection` keeps what is in both. -/
theorem setIntersection_eq {as bs : List Int} (has : as.Pairwise (· < ·))
    (hbs : bs.Pairwise (· ≤ ·)) : setIntersection as bs = as.filter (· ∈ bs) := by
  induction as generalizing bs with
  | nil => rfl
  | cons a as ih =>
    obtain ⟨hlt, hrestas⟩ := List.pairwise_cons.mp has
    have hrest : (bs.dropWhile (· < a)).Pairwise (· ≤ ·) :=
      hbs.sublist (List.dropWhile_sublist _)
    have htail : as.filter (· ∈ bs) = as.filter (· ∈ bs.dropWhile (· < a)) := by
      apply List.filter_congr
      intro x hx
      simp only [mem_dropWhile_lt (hlt x hx).le]
    have hhead : a ∈ bs ↔ a ∈ bs.dropWhile (· < a) := (mem_dropWhile_lt le_rfl).symm
    rw [setIntersection, List.filter_cons, htail]
    simp only [hhead]
    cases hd : bs.dropWhile (· < a) with
    | nil => simp
    | cons b bs' =>
      rw [hd] at hrest
      obtain ⟨hble, hbs'⟩ := List.pairwise_cons.mp hrest
      have hba : a ≤ b := le_of_dropWhile_lt hd
      by_cases hb : b = a
      · subst hb
        simp only [if_true, List.mem_cons_self, decide_true]
        rw [ih hrestas hbs']
        congr 1
        apply List.filter_congr
        intro x hx
        have hne : x ≠ b := (hlt x hx).ne'
        simp [hne]
      · have hnot : a ∉ b :: bs' := by
          intro hin
          obtain he | hin := List.mem_cons.mp hin
          · exact hb he.symm
          · have := hble a hin
            omega
        simp only [hb, if_false, hnot, decide_false, Bool.false_eq_true]
        exact ih hrestas (List.pairwise_cons.mpr ⟨hble, hbs'⟩)

/-- A view is independent of others when it reaches none of them. -/
theorem isIndependent_spec (hroot : app.Rooted) (h : app.Linked o) {p : Nat} {ids : List Int}
    (hp : p < app.views.length) (hids : ids.Pairwise (· < ·)) (hin : app.idOf p ∈ ids)
    (hall : ∀ id ∈ ids, ∃ q < app.views.length, app.idOf q = id) :
    ∃ independent, app.isIndependent o p ids = some independent ∧
      (independent = true ↔ ∀ q < app.views.length, app.idOf q ∈ ids →
        Search.Reaches (app.targetsOf o) p q → q = p) := by
  obtain ⟨nodes, hnodes, hmem⟩ := referencedNodes_spec hroot.distinct h hp le_rfl
  have hself : app.idOf p ∈ nodes := (hmem p hp).mpr (.refl p)
  have hsorted : (nodes.dedup.insertionSort (· ≤ ·)).Pairwise (· ≤ ·) :=
    List.pairwise_insertionSort _ _
  have hfilter : setIntersection ids (nodes.dedup.insertionSort (· ≤ ·)) =
      ids.filter (· ∈ nodes) := by
    rw [setIntersection_eq hids hsorted]
    apply List.filter_congr
    intro x _
    simp
  refine ⟨_, by rw [isIndependent, hnodes, Option.map_some, hfilter], ?_⟩
  rw [decide_eq_true_eq]
  have hmine : app.idOf p ∈ ids.filter (· ∈ nodes) := by simp [hin, hself]
  constructor
  · intro hone q hq hqin hreach
    obtain ⟨x, hx⟩ := List.length_eq_one_iff.mp hone
    have hqmine : app.idOf q ∈ ids.filter (· ∈ nodes) := by simp [hqin, (hmem q hq).mpr hreach]
    rw [hx, List.mem_singleton] at hmine hqmine
    exact (hroot.idOf_inj hq hp).mp (hqmine.trans hmine.symm)
  · intro hnone
    have hsubset : ids.filter (· ∈ nodes) ⊆ [app.idOf p] := by
      intro x hx
      simp only [List.mem_filter, decide_eq_true_eq] at hx
      obtain ⟨q, hq, rfl⟩ := hall x hx.1
      rw [hnone q hq hx.1 ((hmem q hq).mp hx.2)]
      exact List.mem_singleton_self _
    have hnodup : (ids.filter (· ∈ nodes)).Nodup := (hids.imp fun h => h.ne).filter _
    have hle := (hnodup.subperm hsubset).length_le
    have hpos := List.length_pos_of_mem hmine
    rw [List.length_singleton] at hle
    omega

end
end App
end InferUI
