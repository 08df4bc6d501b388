import InferUI.ConstraintNames
import InferUI.Enumeration
import InferUI.ListLemmas
import InferUI.UserFeedback

/-!
# Laying out given constraints

`LayoutSolver` of `z3inference.h` gives Z3 the attributes of an app and asks for the positions.
It goes through all constraints that `FullSynthesis` knows and keeps those whose name is the name
of an attribute, so for each view it should keep one.
-/

namespace InferUI
variable {Prob K : Type}

/-! ## The enumerations, filtered -/

/-- The text of a name. -/
def ConstraintData.print (data : ConstraintData) : List Char :=
  data.type.str.toList ++ printNumber data.size.toIndex ++ printNumber data.orientation.toIndex ++
    printNumber data.src ++ printNumber data.primary ++
    if data.secondary = -1 then [] else printNumber data.secondary.toNat

theorem print_constraintName (view : Z3View) (type : ConstraintType) (size : ViewSize) (l : Z3View)
    (r : Option Z3View) :
    (view.constraintName type size l r).print = view.printConstraintName type size l r := by
  unfold ConstraintData.print Z3View.constraintName Z3View.printConstraintName
  cases r with
  | none => rfl
  | some r =>
    have hne : ¬ (r.pos : Int) = -1 := by omega
    simp [hne]

section
variable [Field K] [LinearOrder K] [FloorRing K]

/-- Each constraint that is added, with the view whose vector `constraints` gets it. -/
def forEachNonRootView (views : List Z3View) (fn : Z3View → List (Enumerated K)) :
    List (Z3View × Enumerated K) :=
  (nonRoot views).flatMap fun src => (fn src).map fun entry => (src, entry)

/-- What the three enumerations add, in the order of the calls. -/
def enumerateConstraints (o : Orientation) (filter : ConstraintData → Z3View → Bool)
    (views : List Z3View) : List (Z3View × Enumerated K) :=
  forEachNonRootView views (fun src => addFixedSizeRelationalConstraint o src views filter) ++
    forEachNonRootView views (fun src => addFixedSizeCenteringConstraint o src views filter) ++
    forEachNonRootView views fun src => addMatchConstraintCenteringConstraint o src views filter

/-- The vector `constraints` of the view at position `p`. -/
def constraintsOf (added : List (Z3View × Enumerated K)) (p : Nat) : List (Enumerated K) :=
  (added.filter fun entry => decide (entry.1.pos = p)).map (·.2)

end

/-- `ValidConstraint`. -/
def validConstraint (type : ConstraintType) (l : Z3View) (r : Option Z3View) : Bool :=
  if type.isRelationalAnchor then !(decide (l.pos = 0) && type.isOpposite)
  else match r with
    | none => false
    | some r =>
      if (type = .l2rxr2l ∨ type = .t2bxb2t) ∧ l.pos = r.pos then false
      else if l.pos = 0 ∧ r.pos = 0 ∧ type.isSameSide = true then false
      else true

/-! ## The layout of one orientation -/

/-- What `check` answers. -/
inductive CheckResult (K : Type) where
  | sat (model : Assignment K)
  | unsat
  | unknown

namespace GivenLayout

/-- The name that `CollectConstraints` inserts for a view; `none` is the exception of `at`. -/
def collectName (o : Orientation) (ref : App Prob) (views : List Z3View) (view : Z3View) :
    Option (List Char) :=
  (ref.getAttribute o view.pos).bind fun attr =>
    let l := findView views attr.tgtPrimary
    if attr.type.isRelationalAnchor then
      some (view.printConstraintName attr.type attr.viewSize l none)
    else attr.tgtSecondary.map fun r =>
      view.printConstraintName attr.type attr.viewSize l (some (findView views r))

def collectConstraints (o : Orientation) (ref : App Prob) (views : List Z3View) :
    Option (List (List Char)) :=
  (nonRoot views).mapM (collectName o ref views)

/-- The body of the loop of `SetSize`; its `CHECK_GE` needs a size that is not negative. -/
def viewSizeAssertions (o : Orientation) (ref : App Prob) (view : Z3View) :
    Option (List (Expr K)) :=
  if view.pos = 0 then some view.assertPosition
  else (ref.getAttribute o view.pos).bind fun attr =>
    if attr.viewSize = .fixed then
      let value := (ref.views[view.pos]?).elim 0 (·.size o)
      if 0 ≤ value then some [fun v => decide (view.positionStart v + value = view.positionEnd v)]
      else none
    else some [fun v => decide (0 ≤ view.positionEnd v - view.positionStart v)]

def setSize (o : Orientation) (ref : App Prob) (views : List Z3View) : Option (List (Expr K)) :=
  (views.mapM (viewSizeAssertions o ref)).map List.flatten

/-- The body of the loop of `SetMargins`; `printed` is the real that `std::to_string` prints. -/
def viewMarginAssertions [DecidableEq K] (printed : ℚ → K) (o : Orientation) (ref : App Prob)
    (view : Z3View) : Option (List (Expr K)) :=
  if view.pos = 0 then some []
  else (ref.getAttribute o view.pos).map fun attr =>
    [fun v => decide (view.marginStart v = attr.valuePrimary),
      fun v => decide (view.marginEnd v = attr.valueSecondary),
      fun v => decide (view.bias v = printed attr.bias)]

def setMargins [DecidableEq K] (printed : ℚ → K) (o : Orientation) (ref : App Prob)
    (views : List Z3View) : Option (List (Expr K)) :=
  (views.mapM (viewMarginAssertions printed o ref)).map List.flatten

section
variable [Field K] [LinearOrder K] [FloorRing K]

/-- `FinishedAddingConstraints`; `none` is its `false`. -/
def finishedAddingConstraints (views : List Z3View) (added : List (Z3View × Enumerated K)) :
    Option (List (Expr K)) :=
  (nonRoot views).mapM fun view =>
    match constraintsOf added view.pos with
    | [only] => some fun v => v.select (only.name view)
    | _ => none

/-- The new positions along an orientation, in the range of an `int`. -/
def assignPosition (o : Orientation) (v : Assignment K) (z3View : Z3View) (view : View Prob) :
    Option (View Prob) :=
  let fits (n : Int) : Bool := decide (-2 ^ 31 ≤ n) && decide (n < 2 ^ 31)
  if z3View.pos = 0 then some view
  else if fits (z3View.positionStart v) && fits (z3View.positionEnd v) then
    some <| match o with
      | .horizontal => { view with xleft := z3View.positionStart v, xright := z3View.positionEnd v }
      | .vertical => { view with ytop := z3View.positionStart v, ybottom := z3View.positionEnd v }
  else none

/-- `Layout` of one orientation. `none` stands for a `CHECK` or an exception that stops the
program, among them that of `unique_id`. -/
def layoutOrientation (check : List (Expr K) → CheckResult K) (printed : ℚ → K) (app ref : App Prob)
    (o : Orientation) : Option (Status × App Prob) :=
  if 1000 < app.views.length then none
  else
    let views := convertViews app o 0
    (setSize o ref views).bind fun sizes =>
    (setMargins printed o ref views).bind fun margins =>
    (collectConstraints o ref views).bind fun names =>
    let added := enumerateConstraints o (fun name _ => decide (name.print ∈ names)) views
    match finishedAddingConstraints views added with
    | none => some (.invalid, app)
    | some selected =>
      let asserted := added.map fun entry => entry.2.assertion entry.1
      match check (sizes ++ margins ++ asserted ++ selected) with
      | .unsat | .unknown => some (.unsat, app)
      | .sat model =>
        ((views.zip app.views).mapM fun pair => assignPosition o model pair.1 pair.2).map
          fun placed => (.success, App.ofViews placed)

/-- The app whose only known positions are those of the content frame. -/
def framed (ref : App Prob) (xleft ytop xright ybottom : Int) : App Prob :=
  App.ofViews (ref.views.map fun view =>
    if view.isContentFrame then ⟨xleft, ytop, xright, ybottom, view.id, 0, fun _ => none,
      fun _ => none⟩
    else ⟨-1, -1, -1, -1, view.id, 0, fun _ => none, fun _ => none⟩)

/-- `Layout` of both orientations. -/
def layout (check : List (Expr K) → CheckResult K) (printed : ℚ → K) (ref : App Prob)
    (xleft ytop xright ybottom : Int) : Option (Status × App Prob) :=
  (layoutOrientation check printed (framed ref xleft ytop xright ybottom) ref .horizontal).bind
    fun first =>
      if first.1 ≠ .success then some first
      else layoutOrientation check printed first.2 ref .vertical

end

/-! ## Loops that only one element passes -/

theorem product_eq_of_key {α β κ : Type} {xs : List α} {key : α → κ} {f : α → α → List β}
    (hnodup : (xs.map key).Nodup) {x y : α} (hx : x ∈ xs) (hy : y ∈ xs)
    (hothers : ∀ l ∈ xs, ∀ r ∈ xs, ¬ (key l = key x ∧ key r = key y) → f l r = []) :
    product xs f = f x y := by
  unfold product
  rw [flatMap_eq_of_key hnodup hx, flatMap_eq_of_key hnodup hy]
  · intro r hr hne
    exact hothers x hx r hr fun h => hne h.2
  · intro l hl hne
    rw [List.flatMap_eq_nil_iff]
    intro r hr
    exact hothers l hl r hr fun h => hne h.1

/-! ## The tables -/

theorem relationalTable_types (o : Orientation) :
    (ConstraintRelationalFixedSize.constraints (K := K)).map (·.getType o) =
      relationalTypes o := by
  cases o <;> rfl

/-- A table for two targets and the constraints of a size. -/
structure IsTable [Field K] [LinearOrder K] [FloorRing K] (constraints : List (Constraint K))
    (size : ViewSize) : Prop where
  types : ∀ o, constraints.map (·.getType o) = pairTypes o
  fn : ∀ o, ∀ constraint ∈ constraints, constraint.fn = formula (constraint.getType o) size

section
variable (K) [Field K] [LinearOrder K] [FloorRing K]

theorem fixedSize_isTable : IsTable (K := K) ConstraintCenteringFixedSize.constraints .fixed where
  types o := by cases o <;> rfl
  fn _ _ h := (fn_centering h).2.2

theorem matchConstraint_isTable :
    IsTable (K := K) ConstraintCenteringMatchConstraint.constraints .matchConstraint where
  types o := by cases o <;> rfl
  fn _ _ h := (fn_match h).2.2

end

/-! ## The constraint of an attribute -/

/-- What the synthesis may choose for view `p` of an app with `n` views. -/
structure Valid (attr : Attribute Prob) (n : Nat) (o : Orientation) (views : List Z3View)
    (p : Nat) : Prop where
  orientation : attr.type.toOrientation = o
  valid : validConstraint attr.type (findView views attr.tgtPrimary)
    (attr.tgtSecondary.map (findView views)) = true
  relational : attr.type.isRelationalAnchor = true → attr.viewSize = .fixed
  center : attr.type.isRelationalAnchor = false →
    attr.viewSize = .fixed ∨ attr.viewSize = .matchConstraint
  primary : attr.tgtPrimary < n ∧ attr.tgtPrimary ≠ p
  secondary : attr.type.isRelationalAnchor = false → ∀ r ∈ attr.tgtSecondary, r < n ∧ r ≠ p

/-- The second target, where the type has one. -/
def secondaryView (views : List Z3View) (attr : Attribute Prob) : Option Z3View :=
  if attr.type.isRelationalAnchor then none else attr.tgtSecondary.map (findView views)

/-- The constraint of an attribute with its own targets. -/
def ownConstraint [Field K] [LinearOrder K] [FloorRing K] (views : List Z3View) (src : Z3View)
    (attr : Attribute Prob) : Enumerated K :=
  let l := findView views attr.tgtPrimary
  let r := secondaryView views attr
  ⟨attr.type, attr.viewSize, l, r, formula attr.type attr.viewSize src l r⟩

/-- The filter lets through one constraint of a view, that of its attribute. -/
def Selects (filter : ConstraintData → Z3View → Bool) (views : List Z3View) (src : Z3View)
    (attr : Attribute Prob) : Prop :=
  ∀ type size l r, l ∈ views → (∀ view ∈ r, view ∈ views) →
    (filter (src.constraintName type size l r) src = true ↔
      type = attr.type ∧ size = attr.viewSize ∧ l = findView views attr.tgtPrimary ∧
        r = secondaryView views attr)

theorem Selects.dropped {filter : ConstraintData → Z3View → Bool} {views : List Z3View}
    {src : Z3View} {attr : Attribute Prob} (h : Selects filter views src attr)
    {type : ConstraintType} {size : ViewSize} {l : Z3View} {r : Option Z3View} (hl : l ∈ views)
    (hr : ∀ view ∈ r, view ∈ views)
    (hne : ¬ (type = attr.type ∧ size = attr.viewSize ∧ l = findView views attr.tgtPrimary ∧
      r = secondaryView views attr)) :
    filter (src.constraintName type size l r) src = false := by
  rw [Bool.eq_false_iff, Ne, h _ _ _ _ hl hr]
  exact hne

/-! ## One view -/

section
variable {app : App Prob} {o : Orientation} {filter : ConstraintData → Z3View → Bool} {src : Z3View}
variable {attr : Attribute Prob}

theorem positions_nodup (app : App Prob) (o : Orientation) :
    ((convertViews app o 0).map (·.pos)).Nodup := by
  have hpos : (convertViews app o 0).map (·.pos) = app.views.map (·.pos) := by
    rw [convertViews, List.map_map]
    rfl
  rw [hpos]
  exact app.positions_nodup

theorem eq_findView {p : Nat} {view : Z3View} (hview : view ∈ convertViews app o 0)
    (hpos : view.pos = p) : view = findView (convertViews app o 0) p := by
  obtain ⟨q, hq, rfl⟩ := mem_convertViews.mp hview
  rw [findView_pos hq] at hpos
  rw [hpos]

theorem findView_mem {p : Nat} (h : p < app.views.length) :
    findView (convertViews app o 0) p ∈ convertViews app o 0 :=
  mem_convertViews.mpr ⟨p, h, rfl⟩

theorem Valid.relational_valid {n p : Nat} {views : List Z3View}
    (h : Valid attr n o views p) (hrel : attr.type.isRelationalAnchor = true) :
    ¬ ((findView views attr.tgtPrimary).pos = 0 ∧ attr.type.isOpposite = true) := by
  rintro ⟨hzero, hopposite⟩
  have hvalid := h.valid
  unfold validConstraint at hvalid
  rw [if_pos hrel, hopposite, decide_eq_true hzero] at hvalid
  cases hvalid

theorem Valid.center_valid {n p : Nat} {views : List Z3View}
    (h : Valid attr n o views p) (hcenter : attr.type.isRelationalAnchor = false) :
    ∃ r, attr.tgtSecondary = some r ∧
      ¬ ((attr.type = .l2rxr2l ∨ attr.type = .t2bxb2t) ∧
        (findView views attr.tgtPrimary).pos = (findView views r).pos) ∧
      ¬ ((findView views attr.tgtPrimary).pos = 0 ∧ (findView views r).pos = 0 ∧
        attr.type.isSameSide = true) := by
  have hvalid := h.valid
  unfold validConstraint at hvalid
  rw [hcenter, if_neg (by decide)] at hvalid
  cases hr : attr.tgtSecondary with
  | none =>
    rw [hr] at hvalid
    cases hvalid
  | some r =>
    rw [hr] at hvalid
    dsimp only [Option.map_some] at hvalid
    refine ⟨r, rfl, ?_, ?_⟩
    · intro hsame
      rw [if_pos hsame] at hvalid
      cases hvalid
    · intro hroot
      rw [if_pos hroot, ite_self] at hvalid
      cases hvalid

variable [Field K] [LinearOrder K] [FloorRing K]

theorem relational_eq_own (hvalid : Valid attr app.views.length o (convertViews app o 0) src.pos)
    (hselects : Selects filter (convertViews app o 0) src attr)
    (hrel : attr.type.isRelationalAnchor = true) :
    addFixedSizeRelationalConstraint (K := K) o src (convertViews app o 0) filter =
      [ownConstraint (convertViews app o 0) src attr] := by
  set views := convertViews app o 0 with hviews
  set l := findView views attr.tgtPrimary with hl
  have hlpos : l.pos = attr.tgtPrimary := findView_pos hvalid.primary.1
  have hlmem : l ∈ views := findView_mem hvalid.primary.1
  have hr : secondaryView views attr = none := if_pos hrel
  have htype : attr.type ∈ (ConstraintRelationalFixedSize.constraints (K := K)).map
      (·.getType o) := by
    rw [relationalTable_types]
    exact mem_relationalTypes.mpr ⟨hrel, hvalid.orientation⟩
  have htypes : ((ConstraintRelationalFixedSize.constraints (K := K)).map
      (·.getType o)).Nodup := by
    rw [relationalTable_types]
    cases o <;> decide
  obtain ⟨constraint, hconstraint, hget⟩ := List.mem_map.mp htype
  unfold addFixedSizeRelationalConstraint
  rw [flatMap_eq_of_key (positions_nodup app o) hlmem]
  · have hother : ¬ src.pos = l.pos := by
      rw [hlpos]
      exact hvalid.primary.2.symm
    rw [if_neg hother, filterMap_eq_of_key htypes hconstraint]
    · have hkept : filter (src.constraintName attr.type .fixed l none) src = true :=
        (hselects _ _ _ _ hlmem (by simp)).mpr ⟨rfl, (hvalid.relational hrel).symm, rfl, hr.symm⟩
      have hfn := (fn_relational (o := o) hconstraint).2.2
      dsimp only
      rw [hfn, hget, if_neg (hvalid.relational_valid hrel), hkept, if_neg (by decide),
        ownConstraint, hr, hvalid.relational hrel]
      rfl
    · intro other _ hne
      have hdropped : filter (src.constraintName (other.getType o) .fixed l none) src = false :=
        hselects.dropped hlmem (by simp) fun h => hne (h.1.trans hget.symm)
      dsimp only
      rw [hdropped, Bool.not_false, if_pos rfl, ite_self]
  · intro tgt htgt hne
    have hdropped (type : ConstraintType) :
        filter (src.constraintName type .fixed tgt none) src = false :=
      hselects.dropped htgt (by simp) fun h => hne (congrArg _ h.2.2.1)
    simp [hdropped]

theorem relational_eq_nil (hselects : Selects filter (convertViews app o 0) src attr)
    (hcenter : attr.type.isRelationalAnchor = false) :
    addFixedSizeRelationalConstraint (K := K) o src (convertViews app o 0) filter = [] := by
  have hdropped (tgt : Z3View) (htgt : tgt ∈ convertViews app o 0) (constraint : Constraint K)
      (hconstraint : constraint ∈ ConstraintRelationalFixedSize.constraints) :
      filter (src.constraintName (constraint.getType o) .fixed tgt none) src = false := by
    apply hselects.dropped htgt (by simp)
    rintro ⟨htype, _⟩
    have hrel := (fn_relational (o := o) hconstraint).1
    rw [htype, hcenter] at hrel
    cases hrel
  rw [addFixedSizeRelationalConstraint, List.flatMap_eq_nil_iff]
  intro tgt htgt
  split
  · rfl
  · rw [List.filterMap_eq_nil_iff]
    intro constraint hconstraint
    dsimp only
    rw [hdropped tgt htgt constraint hconstraint, Bool.not_false, if_pos rfl, ite_self]

theorem centering_eq_own {table : List (Constraint K)} {size : ViewSize}
    (htable : IsTable table size)
    (hvalid : Valid attr app.views.length o (convertViews app o 0) src.pos)
    (hselects : Selects filter (convertViews app o 0) src attr)
    (hcenter : attr.type.isRelationalAnchor = false) (hsize : attr.viewSize = size) :
    addCenteringConstraint table size o src (convertViews app o 0) filter =
      [ownConstraint (convertViews app o 0) src attr] := by
  set views := convertViews app o 0 with hviews
  set l := findView views attr.tgtPrimary with hl
  obtain ⟨p, hp, hdistinct, hroot⟩ := hvalid.center_valid hcenter
  have hplt := hvalid.secondary hcenter p hp
  set r := findView views p with hrdef
  have hlpos : l.pos = attr.tgtPrimary := findView_pos hvalid.primary.1
  have hrpos : r.pos = p := findView_pos hplt.1
  have hlmem : l ∈ views := findView_mem hvalid.primary.1
  have hrmem : r ∈ views := findView_mem hplt.1
  have hr : secondaryView views attr = some r := by
    rw [secondaryView, hcenter, if_neg (by decide), hp, Option.map_some]
  have htype : attr.type ∈ table.map (·.getType o) := by
    rw [htable.types, mem_pairTypes]
    exact mem_centerTypes.mpr ⟨hcenter, hvalid.orientation⟩
  have htypes : (table.map (·.getType o)).Nodup := by
    rw [htable.types]
    cases o <;> decide
  obtain ⟨constraint, hconstraint, hget⟩ := List.mem_map.mp htype
  have hmem {r : Z3View} (hr : r ∈ views) : ∀ view ∈ some r, view ∈ views := by
    rintro view ⟨⟩
    exact hr
  unfold addCenteringConstraint
  rw [product_eq_of_key (positions_nodup app o) hlmem hrmem]
  · have hneither : ¬ (l.pos = src.pos ∨ r.pos = src.pos) := by
      rw [hlpos, hrpos]
      exact not_or.mpr ⟨hvalid.primary.2, hplt.2⟩
    rw [if_neg hneither, filterMap_eq_of_key htypes hconstraint]
    · have hkept : filter (src.constraintName attr.type size l (some r)) src = true :=
        (hselects _ _ _ _ hlmem (hmem hrmem)).mpr ⟨rfl, hsize.symm, rfl, hr.symm⟩
      dsimp only
      rw [htable.fn o constraint hconstraint, hget, if_neg hdistinct, if_neg hroot, hkept,
        if_neg (by decide), ownConstraint, hr, hsize]
      rfl
    · intro other _ hne
      have hdropped : filter (src.constraintName (other.getType o) size l (some r)) src =
          false :=
        hselects.dropped hlmem (hmem hrmem) fun h => hne (h.1.trans hget.symm)
      dsimp only
      rw [hdropped, Bool.not_false, if_pos rfl, ite_self, ite_self]
  · intro l' hl' r' hr' hne
    have hdropped (type : ConstraintType) :
        filter (src.constraintName type size l' (some r')) src = false := by
      apply hselects.dropped hl' (hmem hr')
      rw [hr, Option.some.injEq]
      rintro ⟨_, _, rfl, rfl⟩
      exact hne ⟨rfl, rfl⟩
    simp [hdropped]

theorem centering_eq_nil {table : List (Constraint K)} {size : ViewSize}
    (htable : IsTable table size) (hselects : Selects filter (convertViews app o 0) src attr)
    (hother : attr.type.isRelationalAnchor = true ∨ attr.viewSize ≠ size) :
    addCenteringConstraint table size o src (convertViews app o 0) filter = [] := by
  have hdropped (l r : Z3View) (hl : l ∈ convertViews app o 0) (hr : r ∈ convertViews app o 0)
      (constraint : Constraint K) (hconstraint : constraint ∈ table) :
      filter (src.constraintName (constraint.getType o) size l (some r)) src = false := by
    apply hselects.dropped hl (by rintro view ⟨⟩; exact hr)
    rintro ⟨htype, hsize, _⟩
    rcases hother with hrel | hne
    · have hmem := List.mem_map_of_mem (f := (·.getType o)) hconstraint
      rw [htable.types, htype, mem_pairTypes, mem_centerTypes, hrel] at hmem
      cases hmem.1
    · exact hne hsize.symm
  rw [addCenteringConstraint, product, List.flatMap_eq_nil_iff]
  intro l hl
  rw [List.flatMap_eq_nil_iff]
  intro r hr
  split
  · rfl
  · rw [List.filterMap_eq_nil_iff]
    intro constraint hconstraint
    dsimp only
    rw [hdropped l r hl hr constraint hconstraint, Bool.not_false, if_pos rfl, ite_self, ite_self]

end

/-! ## All views -/

section
variable {app : App Prob} {o : Orientation} {filter : ConstraintData → Z3View → Bool}

variable [Field K] [LinearOrder K] [FloorRing K]

omit [Field K] [LinearOrder K] [FloorRing K] in
/-- A loop over the views fills each vector `constraints` with what it adds for that view. -/
theorem constraintsOf_forEach (fn : Z3View → List (Enumerated K)) {p : Nat} (hp : p ≠ 0)
    (hlt : p < app.views.length) :
    constraintsOf (forEachNonRootView (convertViews app o 0) fn) p =
      fn (findView (convertViews app o 0) p) := by
  have hnodup : ((nonRoot (convertViews app o 0)).map (·.pos)).Nodup := by
    rw [nonRoot_positions]
    exact List.nodup_range.filter _
  have hself : ((fn (findView (convertViews app o 0) p)).map fun entry =>
      (findView (convertViews app o 0) p, entry)).filter (fun entry => decide (entry.1.pos = p)) =
      (fn (findView (convertViews app o 0) p)).map fun entry =>
        (findView (convertViews app o 0) p, entry) := by
    apply List.filter_eq_self.mpr
    intro entry hentry
    obtain ⟨_, _, rfl⟩ := List.mem_map.mp hentry
    exact decide_eq_true (findView_pos hlt)
  rw [constraintsOf, forEachNonRootView, List.filter_flatMap,
    flatMap_eq_of_key hnodup (mem_nonRoot.mpr ⟨p, hp, hlt, rfl⟩)]
  · rw [hself, List.map_map]
    exact List.map_id _
  · intro view _ hne
    rw [findView_pos hlt] at hne
    apply List.filter_eq_nil_iff.mpr
    intro entry hentry
    obtain ⟨_, _, rfl⟩ := List.mem_map.mp hentry
    rw [decide_eq_true_eq]
    exact hne

/-- The three enumerations together add the constraint of the attribute, once. -/
theorem constraintsOf_enumerate {p : Nat} (hp : p ≠ 0) (hlt : p < app.views.length)
    {attr : Attribute Prob} (hvalid : Valid attr app.views.length o (convertViews app o 0) p)
    (hselects : Selects filter (convertViews app o 0) (findView (convertViews app o 0) p) attr) :
    constraintsOf (enumerateConstraints (K := K) o filter (convertViews app o 0)) p =
      [ownConstraint (convertViews app o 0) (findView (convertViews app o 0) p) attr] := by
  rw [← findView_pos (o := o) (d := 0) hlt] at hvalid
  have hsplit : constraintsOf (enumerateConstraints (K := K) o filter (convertViews app o 0)) p =
      addFixedSizeRelationalConstraint o (findView (convertViews app o 0) p)
          (convertViews app o 0) filter ++
        addFixedSizeCenteringConstraint o (findView (convertViews app o 0) p)
          (convertViews app o 0) filter ++
        addMatchConstraintCenteringConstraint o (findView (convertViews app o 0) p)
          (convertViews app o 0) filter := by
    rw [enumerateConstraints, constraintsOf, List.filter_append, List.filter_append,
      List.map_append, List.map_append]
    congr
    · exact constraintsOf_forEach
        (fun src => addFixedSizeRelationalConstraint o src _ filter) hp hlt
    · exact constraintsOf_forEach
        (fun src => addFixedSizeCenteringConstraint o src _ filter) hp hlt
    · exact constraintsOf_forEach
        (fun src => addMatchConstraintCenteringConstraint o src _ filter) hp hlt
  rw [hsplit, addFixedSizeCenteringConstraint, addMatchConstraintCenteringConstraint]
  cases hrel : attr.type.isRelationalAnchor with
  | true =>
    rw [relational_eq_own hvalid hselects hrel,
      centering_eq_nil (fixedSize_isTable K) hselects (Or.inl hrel),
      centering_eq_nil (matchConstraint_isTable K) hselects (Or.inl hrel)]
    rfl
  | false =>
    rw [relational_eq_nil hselects hrel]
    rcases hvalid.center hrel with hsize | hsize
    · rw [centering_eq_own (fixedSize_isTable K) hvalid hselects hrel hsize,
        centering_eq_nil (matchConstraint_isTable K) hselects (Or.inr (by rw [hsize]; decide))]
      rfl
    · rw [centering_eq_nil (fixedSize_isTable K) hselects (Or.inr (by rw [hsize]; decide)),
        centering_eq_own (matchConstraint_isTable K) hvalid hselects hrel hsize]
      rfl

end

/-! ## The names -/

section
variable {app ref : App Prob} {o : Orientation}

theorem mem_collectConstraints {views : List Z3View} {names : List (List Char)}
    (h : collectConstraints o ref views = some names) {name : List Char} :
    name ∈ names ↔ ∃ view ∈ nonRoot views, collectName o ref views view = some name := by
  have hmap := congrArg (some name ∈ ·) (mapM_eq_some_iff.mp h)
  simp only [List.mem_map, Option.some.injEq, exists_eq_right] at hmap
  rw [← hmap]

theorem collectName_eq {views : List Z3View} {view : Z3View} {attr : Attribute Prob} {n p : Nat}
    (hattr : ref.getAttribute o view.pos = some attr) (hvalid : Valid attr n o views p) :
    collectName o ref views view = some (view.printConstraintName attr.type attr.viewSize
      (findView views attr.tgtPrimary) (secondaryView views attr)) := by
  rw [collectName, hattr, Option.bind_some, secondaryView]
  cases hrel : attr.type.isRelationalAnchor with
  | true => rfl
  | false =>
    obtain ⟨r, hr, _⟩ := hvalid.center_valid hrel
    rw [hr]
    rfl

/-- Second targets at the same positions are the same. -/
theorem secondary_eq {r r' : Option Z3View} (hr : ∀ view ∈ r, view ∈ convertViews app o 0)
    (hr' : ∀ view ∈ r', view ∈ convertViews app o 0) (h : r.map (·.pos) = r'.map (·.pos)) :
    r = r' := by
  cases r with
  | none => exact (Option.map_eq_none_iff.mp h.symm).symm
  | some view =>
    obtain ⟨view', rfl, hpos⟩ := Option.map_eq_some_iff.mp h.symm
    rw [eq_findView (hr view rfl) hpos.symm, ← eq_findView (hr' view' rfl) rfl]

theorem Valid.secondaryView_mem {attr : Attribute Prob} {p : Nat}
    (hvalid : Valid attr app.views.length o (convertViews app o 0) p) :
    ∀ view ∈ secondaryView (convertViews app o 0) attr, view ∈ convertViews app o 0 := by
  intro view hview
  unfold secondaryView at hview
  split at hview
  · cases hview
  · rename_i hcenter
    obtain ⟨r, hr, rfl⟩ := Option.map_eq_some_iff.mp hview
    exact findView_mem (hvalid.secondary (by simpa using hcenter) r hr).1

/-- What `CollectConstraints` gathers selects for every view the constraint of its attribute. -/
theorem collectConstraints_selects (hlen : app.views.length = ref.views.length)
    (h : ∀ p, p ≠ 0 → p < ref.views.length → ∃ attr, ref.getAttribute o p = some attr ∧
      Valid attr app.views.length o (convertViews app o 0) p)
    {names : List (List Char)}
    (hnames : collectConstraints o ref (convertViews app o 0) = some names) {p : Nat} (hp : p ≠ 0)
    (hlt : p < app.views.length) {attr : Attribute Prob}
    (hattr : ref.getAttribute o p = some attr) :
    Selects (fun name _ => decide (name.print ∈ names)) (convertViews app o 0)
      (findView (convertViews app o 0) p) attr := by
  intro type size l r hl hr
  rw [decide_eq_true_eq, print_constraintName, mem_collectConstraints hnames]
  constructor
  · rintro ⟨view, hview, hname⟩
    obtain ⟨q, hq, hqlt, rfl⟩ := mem_nonRoot.mp hview
    obtain ⟨attr', hattr', hvalid⟩ := h q hq (hlen ▸ hqlt)
    rw [collectName_eq (by rw [findView_pos hqlt]; exact hattr') hvalid, Option.some.injEq] at hname
    have hsame := printConstraintName_inj.mp hname
    simp only [Z3View.constraintName, ConstraintData.mk.injEq, findView_pos hqlt,
      findView_pos hlt] at hsame
    obtain ⟨htype, hsize, _, rfl, hprimary, hsec⟩ := hsame
    obtain rfl := Option.some.inj (hattr.symm.trans hattr')
    refine ⟨htype.symm, hsize.symm, ?_,
      secondary_eq hr hvalid.secondaryView_mem (secondary_inj.mp hsec.symm)⟩
    rw [findView_pos hvalid.primary.1] at hprimary
    exact eq_findView hl hprimary.symm
  · rintro ⟨rfl, rfl, rfl, rfl⟩
    obtain ⟨attr', hattr', hvalid⟩ := h p hp (hlen ▸ hlt)
    obtain rfl := Option.some.inj (hattr.symm.trans hattr')
    exact ⟨_, mem_nonRoot.mpr ⟨p, hp, hlt, rfl⟩,
      collectName_eq (by rw [findView_pos hlt]; exact hattr) hvalid⟩

end

/-! ## The layout -/

/-- Each view of the app but the root has an attribute that the synthesis could have chosen. -/
def AllValid (ref : App Prob) (o : Orientation) : Prop :=
  ∀ p, p ≠ 0 → p < ref.views.length → ∃ attr, ref.getAttribute o p = some attr ∧
    Valid attr ref.views.length o (convertViews ref o 0) p

theorem validConstraint_congr {type : ConstraintType} {l l' : Z3View} {r r' : Option Z3View}
    (hl : l.pos = l'.pos)
    (hr : type.isRelationalAnchor = false → r.map (·.pos) = r'.map (·.pos)) :
    validConstraint type l r = validConstraint type l' r' := by
  unfold validConstraint
  cases hrel : type.isRelationalAnchor with
  | true => simp only [hl, if_true]
  | false =>
    have hpos := hr hrel
    cases r with
    | none =>
      cases r' with
      | none => rfl
      | some view' => cases hpos
    | some view =>
      cases r' with
      | none => cases hpos
      | some view' =>
        simp only [Option.map_some, Option.some.injEq] at hpos
        simp only [hl, hpos]

section
variable {app ref : App Prob} {o : Orientation}

/-- Only the number of views counts, not where they are. -/
theorem Valid.transfer (hlen : app.views.length = ref.views.length) {attr : Attribute Prob}
    {p : Nat} (h : Valid attr ref.views.length o (convertViews ref o 0) p) :
    Valid attr app.views.length o (convertViews app o 0) p := by
  have hpos (q : Nat) (hq : q < ref.views.length) :
      (findView (convertViews app o 0) q).pos = (findView (convertViews ref o 0) q).pos := by
    rw [findView_pos hq, findView_pos (hlen ▸ hq)]
  refine ⟨h.orientation, ?_, h.relational, h.center, hlen ▸ h.primary, hlen ▸ h.secondary⟩
  rw [← h.valid]
  apply validConstraint_congr (hpos _ h.primary.1)
  intro hcenter
  cases hr : attr.tgtSecondary with
  | none => rfl
  | some r => exact congrArg some (hpos r (h.secondary hcenter r hr).1)

theorem exists_names (hlen : app.views.length = ref.views.length) (h : AllValid ref o) :
    ∃ names, collectConstraints o ref (convertViews app o 0) = some names := by
  rw [← Option.isSome_iff_exists, ← Option.ne_none_iff_isSome, collectConstraints, Ne,
    mapM_eq_none_iff]
  rintro ⟨view, hview, hnone⟩
  obtain ⟨p, hp, hlt, rfl⟩ := mem_nonRoot.mp hview
  obtain ⟨attr, hattr, hvalid⟩ := h p hp (hlen ▸ hlt)
  rw [collectName_eq (by rw [findView_pos hlt]; exact hattr) (hvalid.transfer hlen)] at hnone
  cases hnone

variable [Field K] [LinearOrder K] [FloorRing K]

theorem constraintsOf_collected (hlen : app.views.length = ref.views.length) (h : AllValid ref o)
    {names : List (List Char)}
    (hnames : collectConstraints o ref (convertViews app o 0) = some names) {p : Nat} (hp : p ≠ 0)
    (hlt : p < app.views.length) {attr : Attribute Prob}
    (hattr : ref.getAttribute o p = some attr) :
    constraintsOf (enumerateConstraints (K := K) o (fun name _ => decide (name.print ∈ names))
        (convertViews app o 0)) p =
      [ownConstraint (convertViews app o 0) (findView (convertViews app o 0) p) attr] := by
  have hall (q : Nat) (hq : q ≠ 0) (hqlt : q < ref.views.length) :
      ∃ attr, ref.getAttribute o q = some attr ∧
        Valid attr app.views.length o (convertViews app o 0) q := by
    obtain ⟨attr, hattr, hvalid⟩ := h q hq hqlt
    exact ⟨attr, hattr, hvalid.transfer hlen⟩
  obtain ⟨_, hat, hvalid⟩ := hall p hp (hlen ▸ hlt)
  obtain rfl := Option.some.inj (hattr.symm.trans hat)
  exact constraintsOf_enumerate hp hlt hvalid
    (collectConstraints_selects hlen hall hnames hp hlt hattr)

omit [Field K] [LinearOrder K] [FloorRing K] in
/-- With one constraint for each view `FinishedAddingConstraints` goes through. -/
theorem finishedAdding_isSome {views : List Z3View} {added : List (Z3View × Enumerated K)}
    (h : ∀ view ∈ nonRoot views, ∃ only, constraintsOf added view.pos = [only]) :
    (finishedAddingConstraints views added).isSome = true := by
  rw [← Option.ne_none_iff_isSome, finishedAddingConstraints, Ne, mapM_eq_none_iff]
  rintro ⟨view, hview, hnone⟩
  obtain ⟨only, honly⟩ := h view hview
  rw [honly] at hnone
  cases hnone

theorem layoutOrientation_ne_invalid (hlen : app.views.length = ref.views.length)
    (h : AllValid ref o) (check : List (Expr K) → CheckResult K) (printed : ℚ → K)
    (laid : App Prob) : layoutOrientation check printed app ref o ≠ some (.invalid, laid) := by
  intro hlayout
  unfold layoutOrientation at hlayout
  split at hlayout
  · cases hlayout
  · obtain ⟨sizes, _, hlayout⟩ := Option.bind_eq_some_iff.mp hlayout
    obtain ⟨margins, _, hlayout⟩ := Option.bind_eq_some_iff.mp hlayout
    obtain ⟨names, hnames, hlayout⟩ := Option.bind_eq_some_iff.mp hlayout
    have hone : ∀ view ∈ nonRoot (convertViews app o 0), ∃ only : Enumerated K,
        constraintsOf (enumerateConstraints o (fun name _ => decide (name.print ∈ names))
          (convertViews app o 0)) view.pos = [only] := by
      intro view hview
      obtain ⟨p, hp, hlt, rfl⟩ := mem_nonRoot.mp hview
      obtain ⟨attr, hattr, _⟩ := h p hp (hlen ▸ hlt)
      rw [findView_pos hlt]
      exact ⟨_, constraintsOf_collected hlen h hnames hp hlt hattr⟩
    obtain ⟨selected, hselected⟩ := Option.isSome_iff_exists.mp (finishedAdding_isSome hone)
    dsimp only at hlayout
    rw [hselected] at hlayout
    dsimp only at hlayout
    split at hlayout
    · cases hlayout
    · cases hlayout
    · obtain ⟨placed, _, hplaced⟩ := Option.map_eq_some_iff.mp hlayout
      cases hplaced

/-- Laying out an app, the three enumerations add for each view exactly the constraint of its own
attribute with its own targets, so the layout is never invalid. -/
theorem layout_own_constraints (hlen : app.views.length = ref.views.length) (h : AllValid ref o)
    (check : List (Expr K) → CheckResult K) (printed : ℚ → K) :
    (∃ names, collectConstraints o ref (convertViews app o 0) = some names ∧
      ∀ p attr, p ≠ 0 → p < app.views.length → ref.getAttribute o p = some attr →
        constraintsOf (enumerateConstraints (K := K) o (fun name _ => decide (name.print ∈ names))
            (convertViews app o 0)) p =
          [ownConstraint (convertViews app o 0) (findView (convertViews app o 0) p) attr]) ∧
    ∀ laid, layoutOrientation check printed app ref o ≠ some (.invalid, laid) := by
  obtain ⟨names, hnames⟩ := exists_names hlen h
  refine ⟨⟨names, hnames, ?_⟩, layoutOrientation_ne_invalid hlen h check printed⟩
  intro p attr hp hlt hattr
  exact constraintsOf_collected hlen h hnames hp hlt hattr

/-- A view centered in the root, with its size free, and one of fixed size below it. -/
def sampleCentered : App ℚ := .ofViews [⟨0, 0, 100, 100, 0, 0, fun _ => none, fun _ => none⟩,
  ⟨10, 20, 90, 80, 1, 0, fun
    | .horizontal => some (.ofCenter .l2lxr2r .matchConstraint 10 10 1 0 0)
    | .vertical => some (.ofCenter .t2txb2b .matchConstraint 20 20 1 0 0), fun _ => none⟩,
  ⟨10, 85, 40, 95, 2, 0, fun
    | .horizontal => some (.ofRelational .l2l .fixed 0 2 1)
    | .vertical => some (.ofRelational .t2b .fixed 5 2 1), fun _ => none⟩]

theorem sampleCentered_cases {p : Nat} (hp : p ≠ 0) (hlt : p < sampleCentered.views.length) :
    p = 1 ∨ p = 2 := by
  have hlen : sampleCentered.views.length = 3 := rfl
  omega

theorem sampleCentered_allValid (o : Orientation) : AllValid sampleCentered o := by
  intro p hp hlt
  rcases sampleCentered_cases hp hlt with rfl | rfl
  · cases o <;> exact ⟨_, rfl, rfl, by decide, by decide, fun _ => Or.inr rfl, by decide,
      fun _ r hr => by
        obtain rfl : 0 = r := by simpa [Attribute.ofCenter] using hr
        decide⟩
  · cases o <;> exact ⟨_, rfl, rfl, by decide, fun _ => rfl, fun h => absurd h (by decide),
      by decide, fun h => absurd h (by decide)⟩

theorem layout_sampleCentered :
    layoutOrientation (K := ℚ) (fun _ => .unsat) id sampleCentered sampleCentered .horizontal ≠
      some (.invalid, sampleCentered) :=
  (layout_own_constraints rfl (sampleCentered_allValid .horizontal) (fun _ => .unsat) id).2 _

end

theorem length_framed (ref : App Prob) (xleft ytop xright ybottom : Int) :
    (framed ref xleft ytop xright ybottom).views.length = ref.views.length := by
  simp [framed, App.ofViews]

end GivenLayout
end InferUI
