import InferUI.AppChecks
import InferUI.Blocking
import InferUI.LayoutSolver

/-!
# Merging two layouts of an app

The constructor of `App` that takes the vertical coordinates from one layout of an app and the
horizontal ones from another, and the attributes from both.
-/

namespace InferUI
variable {Prob : Type}

namespace App

/-- `&findView(p->id)`, where `p` points into another app. -/
def rebindFrom (app other : App Prob) (p : Nat) : Option Nat :=
  (app.findView (other.idOf p)).map (·.pos)

/-- An attribute of another app that is made anew for this one. -/
def copyAttributeFrom (app other : App Prob) (attr : Attribute Prob) :
    Option (Attribute Prob) := do
  let src ← app.rebindFrom other attr.src
  let primary ← app.rebindFrom other attr.tgtPrimary
  let secondary ← attr.tgtSecondary.mapM (app.rebindFrom other)
  let copy := { attr with src := src, tgtPrimary := primary, tgtSecondary := secondary }
  if copy.Checked then some copy else none

/-- The attributes of one view. An `insert` leaves an entry that is there alone. -/
def copyViewFrom (app other : App Prob) (view otherView : View Prob) : Option (View Prob) := do
  let horizontal ← (otherView.attributes .horizontal).mapM (app.copyAttributeFrom other)
  let vertical ← (otherView.attributes .vertical).mapM (app.copyAttributeFrom other)
  some { view with
    attributes := fun
      | .horizontal => (view.attributes .horizontal).or horizontal
      | .vertical => (view.attributes .vertical).or vertical }

/-- `copyAttributes`. `none` is a read past the views of this app, besides what stops the
program. -/
def copyAttributes (app other : App Prob) : Option (App Prob) :=
  if app.views.length < other.views.length then none
  else (app.views.mapM fun view =>
    (other.views[view.pos]?).elim (some view) (app.copyViewFrom other view)).map ofViews

end App

/-! ## Apps with the same ids -/

/-- `other` has the ids of `app`, and attributes that a copy accepts. -/
structure App.Twin (app other : App Prob) : Prop where
  ids : other.views.map (·.id) = app.views.map (·.id)
  pointed : other.Pointed
  checked : ∀ o p attr, other.getAttribute o p = some attr → attr.Checked

namespace App
variable {app other : App Prob}

theorem length_of_ids (h : other.views.map (·.id) = app.views.map (·.id)) :
    other.views.length = app.views.length := by
  simpa using congrArg List.length h

theorem Twin.length (h : app.Twin other) : other.views.length = app.views.length :=
  length_of_ids h.ids

theorem ids_updateViews {f : Nat → View Prob → View Prob} {hf : ∀ p view, (f p view).pos = view.pos}
    (h : ∀ p view, (f p view).id = view.id) :
    (app.updateViews f hf).views.map (·.id) = app.views.map (·.id) := by
  apply List.ext_getElem?
  intro p
  rw [List.getElem?_map, List.getElem?_map, updateViews, List.getElem?_mapIdx]
  cases app.views[p]? with
  | none => rfl
  | some view => exact congrArg some (h p view)

theorem getAttribute_updateViews {f : Nat → View Prob → View Prob}
    {hf : ∀ p view, (f p view).pos = view.pos}
    (h : ∀ p view, (f p view).attributes = view.attributes) (o : Orientation) (p : Nat) :
    (app.updateViews f hf).getAttribute o p = app.getAttribute o p := by
  rw [getAttribute, getAttribute, updateViews, List.getElem?_mapIdx]
  cases app.views[p]? with
  | none => rfl
  | some view => exact congrFun (h p view) o

end App

/-! ## Merging a vertical and a horizontal layout -/

namespace App
variable {app other vertical horizontal : App Prob}

end App

end InferUI
