import Mathlib.Algebra.Order.Field.Rat
import Mathlib.Data.List.Nodup

/-!
# Views, attributes and apps

The data model of `model.h`. A C++ pointer to a view of an app is the position of
that view in the app's vector, so `src`, `tgt_primary` and `tgt_secondary` are
positions. A probability is a `double` of the code; nothing but its order is ever
used, so it is a type parameter. A `LOG(FATAL)` branch is `none`.
-/

namespace InferUI

inductive Orientation where
  | horizontal | vertical
  deriving DecidableEq, Repr, Inhabited

/-- `static_cast<int>(orientation)`. -/
def Orientation.toIndex : Orientation → Nat
  | .horizontal => 0
  | .vertical => 1

theorem Orientation.toIndex_injective {o o' : Orientation} (h : o.toIndex = o'.toIndex) :
    o = o' := by
  cases o <;> cases o' <;> first | rfl | cases h

inductive ViewSize where
  | matchParent | matchConstraint | fixed
  deriving DecidableEq, Repr

/-- The sentinel `LAST` is not a constructor: where the code returns it, a function
returns `none`. -/
inductive ConstraintType where
  | l2l | l2r | r2l | r2r
  | t2t | t2b | b2t | b2b
  | l2lxr2l | l2lxr2r | l2rxr2l | l2rxr2r
  | t2txb2t | t2txb2b | t2bxb2t | t2bxb2b
  deriving DecidableEq, Repr

namespace ConstraintType

/-- `static_cast<int>(type)`. -/
def toIndex : ConstraintType → Nat
  | l2l => 0 | l2r => 1 | r2l => 2 | r2r => 3
  | t2t => 4 | t2b => 5 | b2t => 6 | b2b => 7
  | l2lxr2l => 8 | l2lxr2r => 9 | l2rxr2l => 10 | l2rxr2r => 11
  | t2txb2t => 12 | t2txb2b => 13 | t2bxb2t => 14 | t2bxb2b => 15

def isRelationalAnchor (type : ConstraintType) : Bool :=
  decide (type.toIndex < l2lxr2l.toIndex)

def isCenterAnchor (type : ConstraintType) : Bool := !type.isRelationalAnchor

def isTypeStart : ConstraintType → Option Bool
  | l2l | l2r | t2t | t2b => some true
  | r2l | r2r | b2t | b2b => some false
  | _ => none

def splitAnchor : ConstraintType → Option ConstraintType × Option ConstraintType
  | l2l => (some l2l, none)
  | l2r => (some l2r, none)
  | r2l => (none, some r2l)
  | r2r => (none, some r2r)
  | t2t => (some t2t, none)
  | t2b => (some t2b, none)
  | b2t => (none, some b2t)
  | b2b => (none, some b2b)
  | l2lxr2l => (some l2l, some r2l)
  | l2lxr2r => (some l2l, some r2r)
  | l2rxr2l => (some l2r, some r2l)
  | l2rxr2r => (some l2r, some r2r)
  | t2txb2t => (some t2t, some b2t)
  | t2txb2b => (some t2t, some b2b)
  | t2bxb2t => (some t2b, some b2t)
  | t2bxb2b => (some t2b, some b2b)

def splitCenterAnchor : ConstraintType → Option (ConstraintType × ConstraintType)
  | l2lxr2l => some (l2l, r2l)
  | l2lxr2r => some (l2l, r2r)
  | l2rxr2l => some (l2r, r2l)
  | l2rxr2r => some (l2r, r2r)
  | t2txb2t => some (t2t, b2t)
  | t2txb2b => some (t2t, b2b)
  | t2bxb2t => some (t2b, b2t)
  | t2bxb2b => some (t2b, b2b)
  | _ => none

def toOrientation : ConstraintType → Orientation
  | l2l | l2r | r2l | r2r | l2lxr2l | l2lxr2r | l2rxr2l | l2rxr2r => .horizontal
  | t2t | t2b | b2t | b2b | t2txb2t | t2txb2b | t2bxb2t | t2bxb2b => .vertical

end ConstraintType

/-- One of the two edges of a view along an orientation: left or top, right or bottom. -/
inductive Side where
  | start | «end»
  deriving DecidableEq, Repr

/-- The edge of the target that the start anchor and the end anchor of a type are tied
to. The code has no such table; it is how the proofs see all sixteen types at once. -/
def ConstraintType.sides : ConstraintType → Option Side × Option Side
  | .l2l | .t2t => (some .start, none)
  | .l2r | .t2b => (some .end, none)
  | .r2l | .b2t => (none, some .start)
  | .r2r | .b2b => (none, some .end)
  | .l2lxr2l | .t2txb2t => (some .start, some .start)
  | .l2lxr2r | .t2txb2b => (some .start, some .end)
  | .l2rxr2l | .t2bxb2t => (some .end, some .start)
  | .l2rxr2r | .t2bxb2b => (some .end, some .end)

structure Attribute (Prob : Type) where
  type : ConstraintType
  viewSize : ViewSize
  valuePrimary : Int
  valueSecondary : Int
  src : Nat
  tgtPrimary : Nat
  tgtSecondary : Option Nat
  prob : Prob
  bias : ℚ
  deriving DecidableEq, Repr

namespace Attribute
variable {Prob : Type}

/-- The constructor for one target: the margin goes to the side of the type's anchor. -/
def ofRelational [Zero Prob] (type : ConstraintType) (viewSize : ViewSize) (value : Int)
    (src primary : Nat) : Attribute Prob :=
  ⟨type, viewSize, if type.isTypeStart = some true then value else 0,
    if type.isTypeStart = some true then 0 else value, src, primary, none, 0, 1 / 2⟩

/-- The constructor for two targets, with the default bias. -/
def ofCenter [Zero Prob] (type : ConstraintType) (viewSize : ViewSize)
    (valuePrimary valueSecondary : Int) (src primary secondary : Nat) : Attribute Prob :=
  ⟨type, viewSize, valuePrimary, valueSecondary, src, primary, some secondary, 0, 1 / 2⟩

/-- The views an attribute refers to, in the order the code visits them. -/
def targets (attr : Attribute Prob) : List Nat :=
  if attr.type.isRelationalAnchor then [attr.tgtPrimary]
  else attr.tgtPrimary :: attr.tgtSecondary.toList

/-- What every attribute of view `pos` of an app with `n` views satisfies: it belongs to
that view, fits the orientation, refers to views of the same app, and has one target
and a fixed size when it is relational, two when it is a centering one. -/
structure Proper (attr : Attribute Prob) (n : Nat) (o : Orientation) (pos : Nat) : Prop where
  own : attr.src = pos
  orientation : attr.type.toOrientation = o
  primary : attr.tgtPrimary < n
  relational : attr.type.isRelationalAnchor = true →
    attr.tgtSecondary = none ∧ attr.viewSize = .fixed
  center : attr.type.isRelationalAnchor = false → ∃ r < n, attr.tgtSecondary = some r

theorem primary_mem_targets (attr : Attribute Prob) : attr.tgtPrimary ∈ attr.targets := by
  rw [targets]
  split <;> simp

theorem secondary_mem_targets {attr : Attribute Prob} {r : Nat}
    (hcenter : attr.type.isRelationalAnchor = false) (hr : attr.tgtSecondary = some r) :
    r ∈ attr.targets := by
  simp [targets, hcenter, hr]

theorem eq_primary_or_mem_secondary {attr : Attribute Prob} {t : Nat} (ht : t ∈ attr.targets) :
    t = attr.tgtPrimary ∨ t ∈ attr.tgtSecondary := by
  unfold targets at ht
  split at ht
  · exact Or.inl (List.mem_singleton.mp ht)
  · exact (List.mem_cons.mp ht).imp_right Option.mem_toList.mp

theorem Proper.targets_lt {attr : Attribute Prob} {n : Nat} {o : Orientation} {pos : Nat}
    (h : attr.Proper n o pos) {t : Nat} (ht : t ∈ attr.targets) : t < n := by
  unfold targets at ht
  split at ht
  · rw [List.mem_singleton] at ht
    exact ht ▸ h.primary
  · rename_i hc
    obtain ⟨r, hr, he⟩ := h.center (by simpa using hc)
    rw [he, Option.toList_some, List.mem_pair] at ht
    rcases ht with rfl | rfl
    · exact h.primary
    · exact hr

end Attribute

structure View (Prob : Type) where
  xleft : Int
  ytop : Int
  xright : Int
  ybottom : Int
  /-- The sequential id within all components of the screen. -/
  id : Int
  /-- The sequential id within the components of the app. -/
  pos : Nat := 0
  attributes : Orientation → Option (Attribute Prob) := fun _ => none
  viewSize : Orientation → Option ViewSize := fun _ => none

namespace View
variable {Prob : Type}

def isContentFrame (view : View Prob) : Bool := decide (view.id = 0)

def width (view : View Prob) : Int := view.xright - view.xleft

def height (view : View Prob) : Int := view.ybottom - view.ytop

/-- The coordinates that `Z3View::ConvertViews` picks for an orientation. -/
def startAt (view : View Prob) : Orientation → Int
  | .horizontal => view.xleft
  | .vertical => view.ytop

def endAt (view : View Prob) : Orientation → Int
  | .horizontal => view.xright
  | .vertical => view.ybottom

def edge (view : View Prob) (o : Orientation) : Side → Int
  | .start => view.startAt o
  | .end => view.endAt o

/-- `width` or `height`, as `AddGenAttributes` picks them. -/
def size (view : View Prob) : Orientation → Int
  | .horizontal => view.width
  | .vertical => view.height

theorem size_eq (view : View Prob) (o : Orientation) :
    view.size o = view.endAt o - view.startAt o := by cases o <;> rfl

def hasFixedPosition (view : View Prob) : Bool :=
  decide (view.xleft ≠ -1) && decide (view.xright ≠ -1) &&
    decide (view.ytop ≠ -1) && decide (view.ybottom ≠ -1)

def applyAttribute (view : View Prob) (o : Orientation) (attr : Attribute Prob) : View Prob :=
  { view with attributes := Function.update view.attributes o (some attr) }

end View

/-- `AddView` numbers the views as they come, so the field `pos` of a view of an app is
its place in the vector. -/
structure App (Prob : Type) where
  views : List (View Prob)
  pos_eq : ∀ (i : Nat) (view : View Prob), views[i]? = some view → view.pos = i

namespace App
variable {Prob : Type}

/-- The app made by `AddView` of each view in turn. -/
def ofViews (views : List (View Prob)) : App Prob where
  views := views.mapIdx fun i view => { view with pos := i }
  pos_eq := by
    intro i view h
    rw [List.getElem?_mapIdx, Option.map_eq_some_iff] at h
    obtain ⟨_, _, rfl⟩ := h
    rfl

/-- `none` is the `LOG(FATAL)` of `findView`. -/
protected def findView (app : App Prob) (id : Int) : Option (View Prob) :=
  app.views.find? fun view => decide (view.id = id)

/-- The attribute of view `p`, if it has one. -/
def getAttribute (app : App Prob) (o : Orientation) (p : Nat) : Option (Attribute Prob) :=
  app.views[p]?.bind fun view => view.attributes o

/-- `ApplyAttribute` on view `p` of the app. -/
def applyAttribute (app : App Prob) (o : Orientation) (p : Nat) (attr : Attribute Prob) :
    App Prob where
  views := app.views.modify p fun view => view.applyAttribute o attr
  pos_eq := by
    intro i view h
    rw [List.getElem?_modify] at h
    obtain ⟨old, ho, rfl⟩ := Option.map_eq_some_iff.mp h
    have := app.pos_eq i old ho
    split <;> exact this

@[simp] theorem length_applyAttribute (app : App Prob) (o : Orientation) (p : Nat)
    (attr : Attribute Prob) : (app.applyAttribute o p attr).views.length = app.views.length :=
  List.length_modify ..

/-- View 0 is the content frame, and no other view has its id or that of a third one. -/
structure Rooted (app : App Prob) : Prop where
  nonempty : 0 < app.views.length
  root_id : ∀ root, app.views[0]? = some root → root.id = 0
  distinct : (app.views.map (·.id)).Nodup

/-- `InitializeAttributes` and the syntheses give no attribute to the content frame. -/
def RootFree (app : App Prob) : Prop := ∀ o, app.getAttribute o 0 = none

/-- The views of an app lie inside its content frame. -/
def InsideRoot (app : App Prob) : Prop :=
  ∀ root, app.views[0]? = some root → ∀ view ∈ app.views, ∀ o,
    root.startAt o ≤ view.startAt o ∧ view.endAt o ≤ root.endAt o

/-- No view has its size fixed by the user. -/
def FreeSizes (app : App Prob) : Prop := ∀ view ∈ app.views, ∀ o, view.viewSize o = none

theorem getElem_pos (app : App Prob) {i : Nat} (h : i < app.views.length) :
    app.views[i].pos = i :=
  app.pos_eq i _ (List.getElem?_eq_getElem h)

theorem positions_nodup (app : App Prob) : (app.views.map (·.pos)).Nodup := by
  have : app.views.map (·.pos) = List.range app.views.length := by
    apply List.ext_getElem (by simp)
    intro i h _
    simpa using app.getElem_pos (by simpa using h)
  rw [this]
  exact List.nodup_range

theorem id_injective_of_nodup {app : App Prob} (hids : (app.views.map (·.id)).Nodup) {i j : Nat}
    (hi : i < app.views.length) (hj : j < app.views.length)
    (he : app.views[i].id = app.views[j].id) : i = j := by
  have inj := List.nodup_iff_injective_get.mp hids
  have hij := @inj ⟨i, by simpa using hi⟩ ⟨j, by simpa using hj⟩ (by simpa using he)
  simpa using hij

/-- The id of the view a pointer refers to. -/
def idOf (app : App Prob) (p : Nat) : Int := (app.views[p]?).elim (-1) (·.id)

theorem idOf_eq (app : App Prob) {p : Nat} (h : p < app.views.length) :
    app.idOf p = app.views[p].id := by
  simp [idOf, h]

theorem idOf_inj_of_nodup {app : App Prob} (hids : (app.views.map (·.id)).Nodup) {i j : Nat}
    (hi : i < app.views.length) (hj : j < app.views.length) :
    app.idOf i = app.idOf j ↔ i = j := by
  rw [app.idOf_eq hi, app.idOf_eq hj]
  exact ⟨id_injective_of_nodup hids hi hj, fun e => by subst e; rfl⟩

theorem Rooted.idOf_inj {app : App Prob} (h : app.Rooted) {i j : Nat}
    (hi : i < app.views.length) (hj : j < app.views.length) :
    app.idOf i = app.idOf j ↔ i = j :=
  idOf_inj_of_nodup h.distinct hi hj

/-- With distinct ids a view is found by its id. -/
theorem findView_eq_some {app : App Prob} (hids : (app.views.map (·.id)).Nodup) {view : View Prob}
    (h : view ∈ app.views) : app.findView view.id = some view := by
  have hsome : (app.findView view.id).isSome = true := by
    rw [App.findView, List.find?_isSome]
    exact ⟨view, h, by simp⟩
  obtain ⟨found, hfound⟩ := Option.isSome_iff_exists.mp hsome
  have hid : found.id = view.id := by simpa using List.find?_some hfound
  obtain ⟨i, hi, rfl⟩ := List.getElem_of_mem h
  obtain ⟨j, hj, rfl⟩ := List.getElem_of_mem (List.mem_of_find?_eq_some hfound)
  obtain rfl := id_injective_of_nodup hids hj hi hid
  exact hfound

theorem Rooted.idOf_zero {app : App Prob} (h : app.Rooted) : app.idOf 0 = 0 := by
  rw [app.idOf_eq h.nonempty]
  exact h.root_id _ (List.getElem?_eq_getElem h.nonempty)

theorem Rooted.idOf_eq_zero {app : App Prob} (h : app.Rooted) {p : Nat}
    (hp : p < app.views.length) : app.idOf p = 0 ↔ p = 0 := by
  rw [← h.idOf_zero]
  exact h.idOf_inj hp h.nonempty

theorem getAttribute_applyAttribute (app : App Prob) {o : Orientation} {p : Nat}
    {attr : Attribute Prob} (hp : p < app.views.length) (o' : Orientation) (q : Nat) :
    (app.applyAttribute o p attr).getAttribute o' q =
      if o' = o ∧ q = p then some attr else app.getAttribute o' q := by
  unfold getAttribute applyAttribute
  simp only [List.getElem?_modify]
  by_cases h : q = p
  · subst h
    by_cases ho : o' = o
    · simp [hp, View.applyAttribute, ho]
    · simp [hp, View.applyAttribute, ho]
  · have : ¬ p = q := fun e => h e.symm
    simp [h, this]

theorem getAttribute_of_length_le (app : App Prob) {p : Nat} (h : app.views.length ≤ p)
    (o : Orientation) : app.getAttribute o p = none := by
  simp [getAttribute, List.getElem?_eq_none h]

/-- Only the attributes change. -/
theorem idOf_applyAttribute (app : App Prob) (o : Orientation) (p : Nat) (attr : Attribute Prob)
    (q : Nat) : (app.applyAttribute o p attr).idOf q = app.idOf q := by
  unfold idOf applyAttribute
  simp only [List.getElem?_modify]
  cases app.views[q]? with
  | none => rfl
  | some view => by_cases h : p = q <;> simp [h, View.applyAttribute]

theorem views_ofViews (views : List (View Prob)) (p : Nat) :
    (ofViews views).views[p]? = (views[p]?).map fun view => { view with pos := p } := by
  rw [ofViews, List.getElem?_mapIdx]

theorem ids_ofViews (views : List (View Prob)) :
    (ofViews views).views.map (·.id) = views.map (·.id) := by
  apply List.ext_getElem?
  intro p
  rw [List.getElem?_map, views_ofViews, List.getElem?_map, Option.map_map]
  rfl

/-- An app is rooted that is made from a root and views with other ids. -/
theorem rooted_ofViews {root : View Prob} {views : List (View Prob)} (hid : root.id = 0)
    (hdistinct : ((root :: views).map (·.id)).Nodup) : (ofViews (root :: views)).Rooted where
  nonempty := by simp [ofViews]
  root_id := by
    intro view h
    rw [views_ofViews, List.getElem?_cons_zero, Option.map_some, Option.some.injEq] at h
    rw [← h]
    exact hid
  distinct := ids_ofViews (root :: views) ▸ hdistinct

/-- An app with the ids of a rooted one is rooted. -/
theorem Rooted.of_ids {app app' : App Prob} (h : app.Rooted)
    (hlength : app'.views.length = app.views.length) (hids : ∀ p, app'.idOf p = app.idOf p) :
    app'.Rooted where
  nonempty := hlength ▸ h.nonempty
  root_id := by
    intro root hr
    have h0 := hids 0
    rw [h.idOf_zero, idOf, hr] at h0
    exact h0
  distinct := by
    have : app'.views.map (·.id) = app.views.map (·.id) := by
      apply List.ext_getElem (by simpa using hlength)
      intro i hi hi'
      have hi := List.length_map (f := fun view : View Prob => view.id) ▸ hi
      have hi' := List.length_map (f := fun view : View Prob => view.id) ▸ hi'
      simpa [idOf, hi, hi'] using hids i
    rw [this]
    exact h.distinct

end App
end InferUI
