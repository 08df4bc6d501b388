import InferUI.ProtoScreen
import InferUI.Graph

/-!
# Apps of a dataset

What `ForEachValidApp` makes of a screen: an app of the views of its root layout, with the
attributes that their properties say. A reference goes from an id text to a view of the screen,
to its sequential id, through `seq_id_to_pos` to a place in the app.
-/

namespace InferUI.Document
variable {Prob : Type}

/-! ## The views of the root layout -/

def setAt (values : List Int) (i value : Int) : Option (List Int) :=
  if i < 0 ∨ values.length ≤ i.toNat then none else some (values.set i.toNat value)

def getAt (values : List Int) (i : Int) : Option Int :=
  if i < 0 then none else values[i.toNat]?

/-- `View(const ProtoView&)`. -/
def View.ofProto (view : ProtoView) : View Prob :=
  .new view.xleft view.ytop view.xright view.ybottom view.type view.seqId

namespace App

/-- One round of the loop of the constructor. -/
def addProtoView (screen : ProtoScreen) (onlyConstraintViews : Bool) (app : App Prob)
    (view : ProtoView) : Option (App Prob) :=
  (if onlyConstraintViews then screen.inRootConstraintLayout view else some true).bind fun
    | true => (setAt app.seqIdToPos view.seqId app.views.length).map fun seqIdToPos =>
      { app with seqIdToPos }.addView (.ofProto view)
    | false => some app

def initializeResizable (reader : Reader) (screen : ProtoScreen) (app : App Prob) :
    Option (App Prob) := do
  let root ← screen.view? 0
  let width ← reader.getViewSize root .horizontal
  let height ← reader.getViewSize root .vertical
  return { app with resizable := [decide (width ≠ .fixed), decide (height ≠ .fixed)] }

/-- `App(const ProtoScreen&, bool)`. -/
def ofScreen (reader : Reader) (screen : ProtoScreen) (onlyConstraintViews : Bool) :
    Option (App Prob) := do
  let app ← screen.views.foldlM (addProtoView screen onlyConstraintViews)
    { seqIdToPos := List.replicate screen.views.length 0 }
  let root ← app.views.head?
  if root.name = constraintLayout then app.initializeResizable reader screen else none

end App

/-! ## The attributes -/

/-- `AttrModel::ATTRIBUTE_TO_TYPE`, of the constraints of a constraint layout. -/
def attributeToType : Name → Option ConstraintType
  | .layoutConstraintTopToBottomOf => some .t2b
  | .layoutConstraintBottomToBottomOf => some .b2b
  | .layoutConstraintTopToTopOf => some .t2t
  | .layoutConstraintBottomToTopOf => some .b2t
  | .layoutConstraintLeftToLeftOf => some .l2l
  | .layoutConstraintLeftToRightOf => some .l2r
  | .layoutConstraintRightToRightOf => some .r2r
  | .layoutConstraintRightToLeftOf => some .r2l
  | _ => none

/-- `ConstraintTypeToMargin` of a name. -/
def nameToMargin : Name → Option Name
  | .layoutConstraintLeftToLeftOf | .layoutConstraintLeftToRightOf => some .layoutMarginLeft
  | .layoutConstraintRightToLeftOf | .layoutConstraintRightToRightOf => some .layoutMarginRight
  | .layoutConstraintTopToTopOf | .layoutConstraintTopToBottomOf => some .layoutMarginTop
  | .layoutConstraintBottomToTopOf | .layoutConstraintBottomToBottomOf => some .layoutMarginBottom
  | _ => none

def getCenterAnchor : ConstraintType → ConstraintType → Option ConstraintType
  | .l2l, .r2l => some .l2lxr2l
  | .l2l, .r2r => some .l2lxr2r
  | .l2r, .r2l => some .l2rxr2l
  | .l2r, .r2r => some .l2rxr2r
  | .t2t, .b2t => some .t2txb2t
  | .t2t, .b2b => some .t2txb2b
  | .t2b, .b2t => some .t2bxb2t
  | .t2b, .b2b => some .t2bxb2b
  | _, _ => none

/-- The margin to a target, as an `int`. -/
def Reader.readMargin (reader : Reader) (view : ProtoView) (target : Option (ProtoView × Name)) :
    Option Int := do
  let type ← target.mapM fun found => nameToMargin found.2
  let margin ← reader.getMarginFromProto view type
  toInt margin

section Attributes
variable [Zero Prob]

/-- The constructor with a start and an end; a name of a target is there when the target is. -/
def Attribute.ofTargets (viewSize : ViewSize) (valuePrimary valueSecondary : Int) (src : ViewPtr)
    (startView endView : Option (ViewPtr × Name)) (bias : ℚ) : Option (Attribute Prob) :=
  match startView, endView with
  | none, none => none
  | none, some target => (attributeToType target.2).map fun type =>
    ⟨type, viewSize, valuePrimary, valueSecondary, src, target.1, none, 0, bias⟩
  | some target, none => (attributeToType target.2).map fun type =>
    ⟨type, viewSize, valuePrimary, valueSecondary, src, target.1, none, 0, bias⟩
  | some primary, some secondary => do
    let startType ← attributeToType primary.2
    let endType ← attributeToType secondary.2
    let type ← getCenterAnchor startType endType
    return ⟨type, viewSize, valuePrimary, valueSecondary, src, primary.1, some secondary.1, 0, bias⟩

namespace App

/-- `&views[seq_id_to_pos[target->seq_id()]]`, in the app at address `a`. -/
def pointerTo (app : App Prob) (a : Nat) (target : ProtoView × Name) : Option (ViewPtr × Name) :=
  (getAt app.seqIdToPos target.1.seqId).map fun pos => (⟨a, pos.toNat⟩, target.2)

def pointsToRoot (app : App Prob) (p : ViewPtr) : Bool :=
  (app.views[p.index]?).any (·.isContentFrame)

/-- The sizes that are not left as they were read. -/
def adjustViewSize (app : App Prob) (attr : Attribute Prob) : Attribute Prob :=
  let viewSize := if attr.viewSize = .matchParent ∧ app.pointsToRoot attr.tgtPrimary ∧
    attr.tgtSecondary.any app.pointsToRoot then .matchConstraint else attr.viewSize
  { attr with viewSize :=
      if viewSize = .matchConstraint ∧ attr.type.isRelationalAnchor then .fixed else viewSize }

variable (reader : Reader) (screen : ProtoScreen) (a : Nat)

/-- The attribute of view `i` in one orientation, whose properties are those of `ref`. -/
def readAttribute (app : App Prob) (i : Nat) (ref : ProtoView) (o : Orientation) :
    Option (Attribute Prob) := do
  let start ← screen.findFirstTarget reader ref (sideConstraints o .start)
  let stop ← screen.findFirstTarget reader ref (sideConstraints o .end)
  let viewSize ← reader.getViewSize ref o
  let valuePrimary ← reader.readMargin ref start
  let valueSecondary ← reader.readMargin ref stop
  let startView ← start.mapM (app.pointerTo a)
  let endView ← stop.mapM (app.pointerTo a)
  let bias ← reader.getBiasFromProto ref o
  let attr ← Attribute.ofTargets viewSize valuePrimary valueSecondary ⟨a, i⟩ startView endView bias
  return app.adjustViewSize attr

/-- One round of the loop of `InitializeAttributes`. -/
def initializeView (app : App Prob) (view : View Prob) (i : Nat) : Option (View Prob) :=
  (screen.view? view.id).bind fun ref =>
    if view.isContentFrame then
      (view.padding.initializeFrom reader ref).map fun padding => { view with padding }
    else do
      let horizontal ← app.readAttribute reader screen a i ref .horizontal
      let vertical ← app.readAttribute reader screen a i ref .vertical
      return { view with attributes := fun
        | .horizontal => (view.attributes .horizontal).or (some horizontal)
        | .vertical => (view.attributes .vertical).or (some vertical) }

def initializeAttributes (app : App Prob) : Option (App Prob) := do
  let app ← app.initializeResizable reader screen
  let views ← app.views.zipIdx.mapM fun (view, i) => app.initializeView reader screen a view i
  return { app with views }

/-- The app that `ForEachValidApp` makes of a screen and gives attributes to. There is none for a
screen that is not accepted, or has an empty layout. -/
def ofValidScreen : Option (App Prob) := do
  let valid ← ProtoScreen.validApp reader screen
  let app ← ofScreen reader screen true
  if valid ∧ app.views.length ≠ 1 then app.initializeAttributes reader screen a else none

end App

end Attributes

/-! ## The apps that are visited -/

/-- The app as the synthesis sees it. -/
def App.toLayout (app : App Prob) : InferUI.App Prob :=
  .ofViews <| app.views.map fun view =>
    { xleft := view.xleft
      ytop := view.ytop
      xright := view.xright
      ybottom := view.ybottom
      id := view.id
      attributes := fun o => (view.attributes o).map fun attr =>
        ⟨attr.type, attr.viewSize, attr.valuePrimary, attr.valueSecondary, attr.src.index,
          attr.tgtPrimary.index, attr.tgtSecondary.map (·.index), attr.prob, attr.bias⟩
      viewSize := view.viewSize }

/-- What `ForEachValidApp` asks of the attributes before it hands an app on: no circular relation,
and no `MATCH_PARENT`. -/
def App.isVisited (app : App Prob) (fuel : Nat) : Option Bool := do
  let framed := app.toLayout.views.filter fun view => !view.isContentFrame
  let acyclic ← [Orientation.horizontal, .vertical].allM fun o => framed.allM fun view => do
    let attr ← view.attributes o
    let circular ← app.toLayout.isCircularRelation o fuel view.pos attr
    return !circular
  let sized ← [Orientation.horizontal, .vertical].allM fun o => framed.allM fun view => do
    let attr ← view.attributes o
    return attr.viewSize ≠ .matchParent
  return acyclic && sized

/-- The app that `ForEachValidApp` hands on for a screen. -/
def App.forEachValidApp [Zero Prob] (reader : Reader) (screen : ProtoScreen) (a fuel : Nat) :
    Option (App Prob) := do
  let app ← ofValidScreen reader screen a
  let visited ← app.isVisited fuel
  if visited then some app else none

/-! ## Where a reference leads -/

/-- The views of the screen that are made views of the app. -/
def ProtoScreen.rootViews (screen : ProtoScreen) : List ProtoView :=
  screen.views.filter fun view => screen.inRootConstraintLayout view = some true

def ProtoScreen.rootIds (screen : ProtoScreen) : List Int := screen.rootViews.map (·.seqId)

/-- The id of the view that a pointer into the app at address `a` points to. -/
def App.idAt (app : App Prob) (a : Nat) (p : ViewPtr) : Option Int :=
  if p.app = a then (app.views[p.index]?).map (·.id) else none

theorem App.idAt_congr {app app' : App Prob} (hids : app'.views.map (·.id) = app.views.map (·.id))
    (a : Nat) (p : ViewPtr) : app'.idAt a p = app.idAt a p := by
  rw [idAt, idAt, ← List.getElem?_map, ← List.getElem?_map, hids]

/-- The target of the start anchor or of the end anchor. -/
def Attribute.target (attr : Attribute Prob) : Side → Option ViewPtr
  | .start => attr.type.sides.1.map fun _ => attr.tgtPrimary
  | .end => attr.type.sides.2.bind fun _ =>
    if attr.type.sides.1.isSome then attr.tgtSecondary else some attr.tgtPrimary

/-- The targets of the attributes of a view are the views with the sequential ids of what the
constraints of the view of the screen refer to; its id is its place among these. -/
def App.KeepsTargets (reader : Reader) (screen : ProtoScreen) (a : Nat) (app : App Prob) : Prop :=
  ∀ view ∈ app.views, ∀ ref, screen.view? view.id = some ref →
    ∀ o attr, view.attributes o = some attr → ∀ side,
      (screen.findFirstTarget reader ref (sideConstraints o side)).map
          (·.map fun found => some found.1.seqId) =
        some ((attr.target side).map (app.idAt a))

/-- What the views of the root layout refer to is in the root layout. -/
def ProtoScreen.TargetsInLayout (reader : Reader) (screen : ProtoScreen) : Prop :=
  ∀ id ∈ screen.rootIds, id ≠ 0 → ∀ ref, screen.view? id = some ref → ∀ o side found,
    screen.findFirstTarget reader ref (sideConstraints o side) = some (some found) →
      found.1.seqId ∈ screen.rootIds

theorem getAt_setAt {values values' : List Int} {i value : Int}
    (h : setAt values i value = some values') (j : Int) :
    getAt values' j = if j = i then some value else getAt values j := by
  unfold setAt at h
  split at h
  · cases h
  · rename_i hrange
    obtain rfl := Option.some.inj h
    unfold getAt
    by_cases hji : j = i
    · subst hji
      rw [if_neg (by omega), if_pos rfl, List.getElem?_set_self (by omega)]
    · rw [if_neg hji]
      split
      · rfl
      · rw [List.getElem?_set_ne (by omega)]

theorem getAt_replicate {n : Nat} {i value : Int}
    (h : getAt (List.replicate n 0) i = some value) : value = 0 := by
  unfold getAt at h
  split at h
  · cases h
  · rw [List.getElem?_replicate] at h
    split at h
    · exact (Option.some.inj h).symm
    · cases h

/-- The app, when so many views of the screen have been looked at: the table has the place of a
view under its id, and 0 under every other. -/
structure App.Filled (screen : ProtoScreen) (done : List ProtoView) (app : App Prob) : Prop where
  ids : app.views.map (·.id) =
    (done.filter fun view => screen.inRootConstraintLayout view = some true).map (·.seqId)
  bare : ∀ view ∈ app.views, ∀ o, view.attributes o = none
  table : ∀ i pos, getAt app.seqIdToPos i = some pos →
    (∃ view, app.views[pos.toNat]? = some view ∧ view.id = i) ∨
      i ∉ app.views.map (·.id) ∧ pos = 0

namespace App.Filled
variable {screen : ProtoScreen} {done : List ProtoView} {app app' : App Prob}

theorem start (n : Nat) :
    Filled screen [] ({ seqIdToPos := List.replicate n 0 } : App Prob) where
  ids := rfl
  bare := by simp
  table _ _ h := Or.inr ⟨by simp, getAt_replicate h⟩

theorem step (hfilled : app.Filled screen done) (view : ProtoView)
    (h : app.addProtoView screen true view = some app') :
    app'.Filled screen (done ++ [view]) := by
  rw [addProtoView, if_pos rfl] at h
  obtain ⟨kept, hkept, hadd⟩ := Option.bind_eq_some_iff.mp h
  cases kept with
  | false =>
    obtain rfl := Option.some.inj hadd
    refine ⟨?_, hfilled.bare, hfilled.table⟩
    rw [hfilled.ids, List.filter_append]
    simp [hkept]
  | true =>
    obtain ⟨table, htable, rfl⟩ := Option.map_eq_some_iff.mp hadd
    have hviews : (addView { app with seqIdToPos := table } (.ofProto view)).views.map (·.id) =
        app.views.map (·.id) ++ [view.seqId] := by
      simp [addView, View.ofProto, View.new, View.placed]
    refine ⟨?_, ?_, ?_⟩
    · rw [hviews, hfilled.ids, List.filter_append]
      simp [hkept]
    · intro added hadded
      obtain hold | rfl := by simpa [addView] using hadded
      · exact hfilled.bare added hold
      · intro o
        rfl
    · intro i pos hpos
      rw [hviews]
      simp only [addView] at hpos ⊢
      rw [getAt_setAt htable] at hpos
      split at hpos
      · rename_i hi
        obtain rfl := Option.some.inj hpos
        refine Or.inl ⟨_, List.getElem?_concat_length, hi.symm⟩
      · rename_i hi
        obtain ⟨old, hold, hid⟩ | ⟨hnone, hzero⟩ := hfilled.table i pos hpos
        · refine Or.inl ⟨old, ?_, hid⟩
          rw [List.getElem?_append_left (List.getElem?_eq_some_iff.mp hold).1, hold]
        · exact Or.inr ⟨by simp [hi] at hnone ⊢; exact hnone, hzero⟩

theorem of_initializeResizable {reader : Reader} {screen' : ProtoScreen}
    (hfilled : app.Filled screen done) (h : app.initializeResizable reader screen' = some app') :
    app'.Filled screen done := by
  obtain ⟨_, _, h⟩ := Option.bind_eq_some_iff.mp h
  obtain ⟨_, _, h⟩ := Option.bind_eq_some_iff.mp h
  obtain ⟨_, _, h⟩ := Option.bind_eq_some_iff.mp h
  obtain rfl := Option.some.inj h
  exact ⟨hfilled.ids, hfilled.bare, hfilled.table⟩

end App.Filled

/-- What the constructor leaves: the views of the root layout in order, and the table. -/
theorem App.filled_ofScreen {reader : Reader} {screen : ProtoScreen} {app : App Prob}
    (h : App.ofScreen reader screen true = some app) : app.Filled screen screen.views := by
  obtain ⟨made, hmade, h⟩ := Option.bind_eq_some_iff.mp h
  obtain ⟨root, _, h⟩ := Option.bind_eq_some_iff.mp h
  have hfilled : made.Filled screen screen.views :=
    foldlM_invariant (P := Filled screen) (fun _ view _ _ hfilled h => hfilled.step view h)
      (Filled.start screen.views.length) hmade
  split at h
  · exact hfilled.of_initializeResizable h
  · cases h

/-- A reference leads to the view with the id that is looked up exactly when there is one: any
other leads to the first view of the app. -/
theorem App.Filled.idAt_pointerTo {screen : ProtoScreen} {app : App Prob}
    (hfilled : app.Filled screen screen.views) {a : Nat} {target : ProtoView × Name}
    {p : ViewPtr × Name} (h : app.pointerTo a target = some p) :
    app.idAt a p.1 = some target.1.seqId ↔ target.1.seqId ∈ screen.rootIds := by
  obtain ⟨pos, hpos, rfl⟩ := Option.map_eq_some_iff.mp h
  have hids : app.views.map (·.id) = screen.rootIds := hfilled.ids
  rw [idAt, if_pos rfl, ← hids]
  obtain ⟨view, hview, hid⟩ | ⟨hnone, hzero⟩ := hfilled.table _ _ hpos
  · rw [hview]
    have hmem := List.mem_map_of_mem (f := (·.id)) (List.mem_of_getElem? hview)
    rw [hid] at hmem
    exact ⟨fun _ => hmem, fun _ => congrArg some hid⟩
  · refine ⟨fun hroot => ?_, fun hmem => absurd hmem hnone⟩
    obtain ⟨view, hview, hid⟩ := Option.map_eq_some_iff.mp hroot
    rw [← hid]
    exact List.mem_map_of_mem (f := (·.id)) (List.mem_of_getElem? hview)

theorem findFirstTarget_name_mem {screen : ProtoScreen} {reader : Reader} {view : ProtoView}
    {names : List Name} {found : ProtoView × Name}
    (h : screen.findFirstTarget reader view names = some (some found)) : found.2 ∈ names := by
  induction names with
  | nil => cases h
  | cons name names ih =>
    rw [ProtoScreen.findFirstTarget] at h
    obtain ⟨target, _, hnext⟩ := Option.bind_eq_some_iff.mp h
    cases target with
    | some target =>
      obtain rfl := Option.some.inj (Option.some.inj hnext)
      exact List.mem_cons_self
    | none => exact List.mem_cons_of_mem name (ih hnext)

/-- The constraints of a start are start anchors, those of an end are end anchors. -/
theorem sides_attributeToType {o : Orientation} {side : Side} {name : Name}
    (hname : name ∈ sideConstraints o side) {type : ConstraintType}
    (h : attributeToType name = some type) :
    match side with
    | .start => type.sides.1.isSome ∧ type.sides.2 = none
    | .end => type.sides.1 = none ∧ type.sides.2.isSome := by
  cases o <;> cases side <;> simp only [sideConstraints, List.mem_cons, List.not_mem_nil,
    or_false] at hname <;> obtain rfl | rfl := hname <;> obtain rfl := Option.some.inj h <;>
    exact ⟨rfl, rfl⟩

theorem sides_getCenterAnchor {start stop type : ConstraintType}
    (h : getCenterAnchor start stop = some type) : type.sides.1.isSome ∧ type.sides.2.isSome := by
  unfold getCenterAnchor at h
  split at h <;> first | (obtain rfl := Option.some.inj h; exact ⟨rfl, rfl⟩) | cases h

theorem target_adjustViewSize (app : App Prob) (attr : Attribute Prob) (side : Side) :
    (app.adjustViewSize attr).target side = attr.target side := by
  cases side <;> rfl

/-- The name of a constraint goes along with its target. -/
theorem name_mem_of_mapM {screen : ProtoScreen} {reader : Reader} {ref : ProtoView} {app : App Prob}
    {a : Nat} {names : List Name} {found : Option (ProtoView × Name)}
    (hfound : screen.findFirstTarget reader ref names = some found)
    {targets : Option (ViewPtr × Name)} (h : found.mapM (app.pointerTo a) = some targets) :
    ∀ p, targets = some p → p.2 ∈ names := by
  rintro p rfl
  cases found with
  | none => cases h
  | some target =>
    have hp : app.pointerTo a target = some p := by simpa using h
    obtain ⟨pos, _, rfl⟩ := Option.map_eq_some_iff.mp hp
    exact findFirstTarget_name_mem hfound

section Attributes
variable [Zero Prob] {reader : Reader} {screen : ProtoScreen} {a i : Nat} {app app' : App Prob}
  {ref : ProtoView} {o : Orientation} {attr : Attribute Prob}

/-- The constructor ties each anchor to the target it is given for it. -/
theorem target_ofTargets {viewSize : ViewSize} {valuePrimary valueSecondary : Int} {src : ViewPtr}
    {startView endView : Option (ViewPtr × Name)} {bias : ℚ}
    (hstart : ∀ p, startView = some p → p.2 ∈ sideConstraints o .start)
    (hend : ∀ p, endView = some p → p.2 ∈ sideConstraints o .end)
    (h : Attribute.ofTargets viewSize valuePrimary valueSecondary src startView endView bias =
      some attr) :
    attr.target .start = startView.map (·.1) ∧ attr.target .end = endView.map (·.1) := by
  cases startView with
  | none =>
    cases endView with
    | none => cases h
    | some target =>
      obtain ⟨type, htype, rfl⟩ := Option.map_eq_some_iff.mp h
      obtain ⟨hnone, hsome⟩ := sides_attributeToType (hend target rfl) htype
      obtain ⟨side, hside⟩ := Option.isSome_iff_exists.mp hsome
      simp [Attribute.target, hnone, hside]
  | some target =>
    cases endView with
    | none =>
      obtain ⟨type, htype, rfl⟩ := Option.map_eq_some_iff.mp h
      obtain ⟨hsome, hnone⟩ := sides_attributeToType (hstart target rfl) htype
      obtain ⟨side, hside⟩ := Option.isSome_iff_exists.mp hsome
      simp [Attribute.target, hnone, hside]
    | some secondary =>
      obtain ⟨_, _, h⟩ := Option.bind_eq_some_iff.mp h
      obtain ⟨_, _, h⟩ := Option.bind_eq_some_iff.mp h
      obtain ⟨type, htype, h⟩ := Option.bind_eq_some_iff.mp h
      obtain rfl := Option.some.inj h
      obtain ⟨hstart, hend⟩ := sides_getCenterAnchor htype
      obtain ⟨side, hside⟩ := Option.isSome_iff_exists.mp hstart
      obtain ⟨side', hside'⟩ := Option.isSome_iff_exists.mp hend
      simp [Attribute.target, hside, hside']

/-- The target of an anchor is where the reference of the first constraint leads. -/
theorem target_readAttribute (h : app.readAttribute reader screen a i ref o = some attr)
    (side : Side) :
    ∃ found p, screen.findFirstTarget reader ref (sideConstraints o side) = some found ∧
      found.mapM (app.pointerTo a) = some p ∧ attr.target side = p.map (·.1) := by
  obtain ⟨start, hstart, h⟩ := Option.bind_eq_some_iff.mp h
  obtain ⟨stop, hstop, h⟩ := Option.bind_eq_some_iff.mp h
  obtain ⟨viewSize, _, h⟩ := Option.bind_eq_some_iff.mp h
  obtain ⟨valuePrimary, _, h⟩ := Option.bind_eq_some_iff.mp h
  obtain ⟨valueSecondary, _, h⟩ := Option.bind_eq_some_iff.mp h
  obtain ⟨startView, hstartView, h⟩ := Option.bind_eq_some_iff.mp h
  obtain ⟨endView, hendView, h⟩ := Option.bind_eq_some_iff.mp h
  obtain ⟨bias, _, h⟩ := Option.bind_eq_some_iff.mp h
  obtain ⟨made, hmade, h⟩ := Option.bind_eq_some_iff.mp h
  obtain rfl := Option.some.inj h
  obtain ⟨hs, he⟩ := target_ofTargets (o := o) (name_mem_of_mapM hstart hstartView)
    (name_mem_of_mapM hstop hendView) hmade
  cases side with
  | start =>
    exact ⟨start, startView, hstart, hstartView, (target_adjustViewSize app made .start).trans hs⟩
  | «end» =>
    exact ⟨stop, endView, hstop, hendView, (target_adjustViewSize app made .end).trans he⟩

/-- What a round leaves: the view with its attributes, or with none if it is the frame. -/
theorem initializeView_spec {view view' : View Prob} (hbare : ∀ o, view.attributes o = none)
    (h : app.initializeView reader screen a view i = some view') :
    view'.id = view.id ∧ ∃ ref, screen.view? view.id = some ref ∧
      (view.id = 0 → ∀ o, view'.attributes o = none) ∧
      (view.id ≠ 0 → ∀ o, ∃ attr, app.readAttribute reader screen a i ref o = some attr ∧
        view'.attributes o = some attr) := by
  obtain ⟨ref, href, h⟩ := Option.bind_eq_some_iff.mp h
  split at h <;> rename_i hframe
  · obtain ⟨padding, _, rfl⟩ := Option.map_eq_some_iff.mp h
    exact ⟨rfl, ref, href, fun _ => hbare, fun hne => absurd (of_decide_eq_true hframe) hne⟩
  · obtain ⟨horizontal, hhorizontal, h⟩ := Option.bind_eq_some_iff.mp h
    obtain ⟨vertical, hvertical, h⟩ := Option.bind_eq_some_iff.mp h
    obtain rfl := Option.some.inj h
    refine ⟨rfl, ref, href, fun hzero => absurd (decide_eq_true hzero) hframe, fun _ o => ?_⟩
    cases o with
    | horizontal =>
      refine ⟨horizontal, hhorizontal, ?_⟩
      change (view.attributes .horizontal).or (some horizontal) = some horizontal
      rw [hbare, Option.none_or]
    | vertical =>
      refine ⟨vertical, hvertical, ?_⟩
      change (view.attributes .vertical).or (some vertical) = some vertical
      rw [hbare, Option.none_or]

/-- The views keep their places and ids, and each has gone through a round of the loop. -/
theorem initializeAttributes_spec (hfilled : app.Filled screen screen.views)
    (h : app.initializeAttributes reader screen a = some app') :
    ∃ sized : App Prob, sized.Filled screen screen.views ∧
      app'.views.map (·.id) = sized.views.map (·.id) ∧
      ∀ view' ∈ app'.views, ∃ view ∈ sized.views, ∃ i,
        sized.initializeView reader screen a view i = some view' := by
  obtain ⟨sized, hsized, h⟩ := Option.bind_eq_some_iff.mp h
  obtain ⟨views, hviews, h⟩ := Option.bind_eq_some_iff.mp h
  obtain rfl := Option.some.inj h
  have hfilled := hfilled.of_initializeResizable hsized
  have hround (i : Nat) : (sized.views[i]? = none ∧ views[i]? = none) ∨
      ∃ view view', sized.views[i]? = some view ∧ views[i]? = some view' ∧
        sized.initializeView reader screen a view i = some view' := by
    obtain ⟨hnone, hnone'⟩ | ⟨entry, view', hentry, hview', hround⟩ :=
      getElem?_of_forall₂ (mapM_eq_some_iff_forall₂.mp hviews) i
    · rw [List.getElem?_zipIdx, Option.map_eq_none_iff] at hnone
      exact Or.inl ⟨hnone, hnone'⟩
    · rw [List.getElem?_zipIdx] at hentry
      obtain ⟨view, hview, rfl⟩ := Option.map_eq_some_iff.mp hentry
      rw [Nat.zero_add] at hround
      exact Or.inr ⟨view, view', hview, hview', hround⟩
  refine ⟨sized, hfilled, List.ext_getElem? fun i => ?_, fun view' hview' => ?_⟩
  · rw [List.getElem?_map, List.getElem?_map]
    obtain ⟨hnone, hnone'⟩ | ⟨view, view', hview, hview', hview''⟩ := hround i
    · rw [hnone, hnone']
    · rw [hview, hview', Option.map_some, Option.map_some]
      have hbare := hfilled.bare view (List.mem_of_getElem? hview)
      exact congrArg some (initializeView_spec hbare hview'').1
  · obtain ⟨i, hi⟩ := List.mem_iff_getElem?.mp hview'
    obtain ⟨_, hnone⟩ | ⟨view, _, hview, hsame, hview''⟩ := hround i
    · rw [hi] at hnone
      cases hnone
    · rw [hi] at hsame
      obtain rfl := Option.some.inj hsame
      exact ⟨view, List.mem_of_getElem? hview, i, hview''⟩

/-- What a view of the app is left with: the frame with no attributes, and any other with one for
each orientation, whose anchors lead where the table says. -/
theorem attributes_ofValidScreen (h : App.ofValidScreen reader screen a = some app) :
    app.views.map (·.id) = screen.rootIds ∧
      ∀ view ∈ app.views, ∃ ref, screen.view? view.id = some ref ∧
        (view.id = 0 → ∀ o, view.attributes o = none) ∧
        (view.id ≠ 0 → ∀ o, ∃ attr, view.attributes o = some attr ∧ ∀ side, ∃ found,
          screen.findFirstTarget reader ref (sideConstraints o side) = some found ∧
          (found = none → attr.target side = none) ∧
          ∀ target, found = some target → ∃ p, attr.target side = some p ∧
            (app.idAt a p = some target.1.seqId ↔ target.1.seqId ∈ screen.rootIds)) := by
  obtain ⟨valid, _, h⟩ := Option.bind_eq_some_iff.mp h
  obtain ⟨bare, hmade, h⟩ := Option.bind_eq_some_iff.mp h
  split at h
  swap
  · cases h
  obtain ⟨sized, hfilled, hids, hviews⟩ :=
    initializeAttributes_spec (App.filled_ofScreen hmade) h
  refine ⟨hids.trans hfilled.ids, fun view' hview' => ?_⟩
  obtain ⟨view, hview, i, hround⟩ := hviews view' hview'
  obtain ⟨hid, ref, href, hframe, hothers⟩ := initializeView_spec (hfilled.bare view hview) hround
  rw [hid]
  refine ⟨ref, href, hframe, fun hne o => ?_⟩
  obtain ⟨attr, hattr, hset⟩ := hothers hne o
  refine ⟨attr, hset, fun side => ?_⟩
  obtain ⟨found, targets, hfound, htargets, htarget⟩ := target_readAttribute hattr side
  refine ⟨found, hfound, ?_, ?_⟩
  · rintro rfl
    obtain rfl : none = targets := Option.some.inj htargets
    exact htarget
  · rintro target rfl
    obtain ⟨p, hp, rfl⟩ : ∃ p, sized.pointerTo a target = some p ∧ some p = targets := by
      simpa using htargets
    refine ⟨p.1, htarget, ?_⟩
    rw [App.idAt_congr hids]
    exact hfilled.idAt_pointerTo hp

/-- If every target is kept, then none is outside of the root layout. -/
theorem targetsInLayout_of_keepsTargets (h : App.ofValidScreen reader screen a = some app)
    (hkeeps : app.KeepsTargets reader screen a) : screen.TargetsInLayout reader := by
  obtain ⟨hids, hviews⟩ := attributes_ofValidScreen h
  intro id hid hne ref href o side target hfound
  rw [← hids] at hid
  obtain ⟨view, hview, rfl⟩ := List.mem_map.mp hid
  obtain ⟨ref', href', _, hothers⟩ := hviews view hview
  rw [href] at href'
  obtain rfl := Option.some.inj href'
  obtain ⟨attr, hattr, hsides⟩ := hothers hne o
  obtain ⟨found, hfound', _, htarget⟩ := hsides side
  rw [hfound] at hfound'
  obtain ⟨p, hp, hleads⟩ := htarget target (Option.some.inj hfound').symm
  have hkept := hkeeps view hview ref href o attr hattr side
  rw [hfound, hp] at hkept
  exact hleads.mp (Option.some.inj (Option.some.inj hkept)).symm

theorem keepsTargets_of_targetsInLayout (h : App.ofValidScreen reader screen a = some app)
    (hlayout : screen.TargetsInLayout reader) : app.KeepsTargets reader screen a := by
  obtain ⟨hids, hviews⟩ := attributes_ofValidScreen h
  intro view hview ref href o attr hattr side
  obtain ⟨ref', href', hframe, hothers⟩ := hviews view hview
  rw [href] at href'
  obtain rfl := Option.some.inj href'
  have hne : view.id ≠ 0 := by
    intro hzero
    rw [hframe hzero o] at hattr
    cases hattr
  obtain ⟨attr', hattr', hsides⟩ := hothers hne o
  rw [hattr] at hattr'
  obtain rfl := Option.some.inj hattr'
  obtain ⟨found, hfound, hnone, htarget⟩ := hsides side
  rw [hfound, Option.map_some]
  cases found with
  | none => rw [hnone rfl, Option.map_none, Option.map_none]
  | some target =>
    obtain ⟨p, hp, hleads⟩ := htarget target rfl
    have hmem : view.id ∈ screen.rootIds := hids ▸ List.mem_map_of_mem hview
    rw [hp, Option.map_some, Option.map_some,
      hleads.mpr (hlayout view.id hmem hne ref href o side target hfound)]

/-- The attributes keep their targets exactly when no view of the root layout refers to a view that
is not in it: such a target is replaced by the content frame. -/
theorem keepsTargets_iff (h : App.ofValidScreen reader screen a = some app) :
    app.KeepsTargets reader screen a ↔ screen.TargetsInLayout reader :=
  ⟨targetsInLayout_of_keepsTargets h, keepsTargets_of_targetsInLayout h⟩

end Attributes

/-! ## Screens whose views stand at their sequential ids -/

namespace ProtoScreen
variable {reader : Reader} {screen : ProtoScreen} {view : ProtoView}

theorem mem_of_view? {i : Int} (h : screen.view? i = some view) : view ∈ screen.views := by
  unfold view? at h
  split at h
  · cases h
  · exact List.mem_of_getElem? h

theorem mem_of_findViewById {id : String} {target : ProtoView}
    (h : screen.findViewById view id = some (some target)) : target ∈ screen.views := by
  unfold findViewById at h
  split at h
  · split at h
    · cases h
    · obtain ⟨parent, hparent, h⟩ := Option.map_eq_some_iff.mp h
      obtain rfl := Option.some.inj h
      exact mem_of_view? hparent
  · split at h
    · cases h
    · exact List.mem_of_find?_eq_some (Option.some.inj h)

theorem mem_of_findFirstTarget {names : List Name} {found : ProtoView × Name}
    (h : screen.findFirstTarget reader view names = some (some found)) :
    found.1 ∈ screen.views := by
  induction names with
  | nil => cases h
  | cons name names ih =>
    rw [findFirstTarget] at h
    obtain ⟨target, htarget, hnext⟩ := Option.bind_eq_some_iff.mp h
    cases target with
    | none => exact ih hnext
    | some target =>
      obtain rfl := Option.some.inj (Option.some.inj hnext)
      unfold findPropertyTarget at htarget
      split at htarget
      · exact mem_of_findViewById htarget
      · cases htarget

/-- The sequential id of a view is its place among the views of the screen. -/
def Sequential (screen : ProtoScreen) : Prop :=
  ∀ (i : Nat) (view : ProtoView), screen.views[i]? = some view → view.seqId = i

theorem Sequential.view?_seqId (hseq : screen.Sequential) (hview : view ∈ screen.views) :
    screen.view? view.seqId = some view := by
  obtain ⟨i, hi⟩ := List.mem_iff_getElem?.mp hview
  rw [hseq i view hi, view?, if_neg (by omega), Int.toNat_natCast, hi]

theorem Sequential.seqId_mem_rootIds (hseq : screen.Sequential) (hview : view ∈ screen.views) :
    view.seqId ∈ screen.rootIds ↔ screen.inRootConstraintLayout view = some true := by
  rw [rootIds, List.mem_map]
  constructor
  · rintro ⟨other, hother, hid⟩
    obtain ⟨hother, hroot⟩ := List.mem_filter.mp hother
    have hsame := hseq.view?_seqId hother
    rw [hid, hseq.view?_seqId hview] at hsame
    obtain rfl := Option.some.inj hsame
    exact of_decide_eq_true hroot
  · intro hroot
    exact ⟨view, List.mem_filter.mpr ⟨hview, decide_eq_true hroot⟩, rfl⟩

/-- There the condition is on the views themselves, and on those they refer to. -/
theorem Sequential.targetsInLayout_iff (hseq : screen.Sequential) :
    screen.TargetsInLayout reader ↔ ∀ view ∈ screen.rootViews, view.seqId ≠ 0 → ∀ o side found,
      screen.findFirstTarget reader view (sideConstraints o side) = some (some found) →
        screen.inRootConstraintLayout found.1 = some true := by
  constructor
  · intro hlayout view hview hne o side found hfound
    rw [← hseq.seqId_mem_rootIds (mem_of_findFirstTarget hfound)]
    exact hlayout view.seqId (List.mem_map_of_mem hview) hne view
      (hseq.view?_seqId (List.mem_filter.mp hview).1) o side found hfound
  · intro htargets id hid hne ref href o side found hfound
    obtain ⟨view, hview, rfl⟩ := List.mem_map.mp hid
    rw [hseq.view?_seqId (List.mem_filter.mp hview).1] at href
    obtain rfl := Option.some.inj href
    rw [hseq.seqId_mem_rootIds (mem_of_findFirstTarget hfound)]
    exact htargets view hview hne o side found hfound

end ProtoScreen

/-! ## A button next to a label in a row -/

def sampleReader : Reader := ⟨true, fun cs => (readDecimal cs).map toFloat⟩

def propertiesOf (list : List (Name × String)) : Properties := fun key =>
  (list.find? fun entry => sampleReader.name (.written entry.1) = key).map (·.2)

/-- The row is in the root layout, and the label in the row. -/
def rowScreen (left : String) : ProtoScreen where
  views :=
    [⟨0, 0, 720, 1280, constraintLayout, "@+id/root", 0, -1, propertiesOf
        [(.layoutWidth, "match_parent"), (.layoutHeight, "match_parent")]⟩,
      ⟨0, 0, 720, 200, "LinearLayout", "@+id/row", 1, 0, propertiesOf
        [(.layoutWidth, "0dp"), (.layoutHeight, "wrap_content"),
          (.layoutConstraintLeftToLeftOf, "parent"), (.layoutConstraintRightToRightOf, "parent"),
          (.layoutConstraintTopToTopOf, "parent")]⟩,
      ⟨16, 16, 200, 100, "TextView", "@+id/label", 2, 1, propertiesOf
        [(.layoutWidth, "wrap_content"), (.layoutHeight, "wrap_content")]⟩,
      ⟨220, 216, 500, 316, "Button", "@+id/button", 3, 0, propertiesOf
        [(.layoutWidth, "wrap_content"), (.layoutHeight, "wrap_content"),
          (.layoutConstraintLeftToRightOf, left), (.layoutConstraintTopToBottomOf, "@id/row"),
          (.layoutMarginTop, "8dp")]⟩]

def rowApp (left : String) : Option (App ℚ) :=
  App.ofValidScreen sampleReader (rowScreen left) 0

theorem rowApp_isSome : (rowApp "@id/row").isSome ∧ (rowApp "@id/label").isSome := by
  decide +kernel

theorem keepsTargets_iff_row :
    ((rowApp "@id/row").get rowApp_isSome.1).KeepsTargets sampleReader (rowScreen "@id/row") 0 ↔
      (rowScreen "@id/row").TargetsInLayout sampleReader :=
  keepsTargets_iff (Option.some_get rowApp_isSome.1).symm

/-- A button next to the label is accepted, and read as a button next to the content frame. -/
theorem label_becomes_frame :
    ProtoScreen.validApp sampleReader (rowScreen "@id/label") = some true ∧
      (App.forEachValidApp sampleReader (rowScreen "@id/label") 0 10 : Option (App ℚ)).isSome ∧
      ((rowApp "@id/label").bind fun app => (app.views[2]?).bind fun view =>
        (view.attributes .horizontal).bind fun attr => (attr.target .start).bind (app.idAt 0)) =
        some 0 ∧
      ¬ ∀ app, rowApp "@id/label" = some app →
        app.KeepsTargets sampleReader (rowScreen "@id/label") 0 := by
  refine ⟨by decide +kernel, by decide +kernel, by decide +kernel, fun hkeeps => ?_⟩
  obtain ⟨app, happ⟩ := Option.isSome_iff_exists.mp rowApp_isSome.2
  have hlayout := targetsInLayout_of_keepsTargets happ (hkeeps app happ)
  have hlabel : (((rowScreen "@id/label").view? 3).bind fun ref =>
      ((rowScreen "@id/label").findFirstTarget sampleReader ref
        (sideConstraints .horizontal .start)).bind fun found =>
          found.map (·.1.seqId)) = some 2 := by decide +kernel
  obtain ⟨ref, href, h⟩ := Option.bind_eq_some_iff.mp hlabel
  obtain ⟨found, hfound, h⟩ := Option.bind_eq_some_iff.mp h
  obtain ⟨target, rfl, hid⟩ := Option.map_eq_some_iff.mp h
  have hmem := hlayout 3 (by decide +kernel) (by decide) ref href .horizontal .start target hfound
  rw [hid] at hmem
  exact absurd hmem (by decide +kernel)

end InferUI.Document
