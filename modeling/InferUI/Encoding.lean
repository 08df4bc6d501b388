import InferUI.Candidates
import InferUI.ListLemmas
import InferUI.Store

/-!
# Asserting the working set

The `Add...` functions of `FullSynthesis` that turn the working set of one orientation into
assertions. Each returns the list of what it adds to the solver.
-/

namespace InferUI
open Store
variable {Prob K : Type}

/-- What encoding an orientation updates: the candidates, and of the `Z3View`s of the
reference their vector `constraints` and their `satisfied_id`. -/
structure Encoder (app : App Prob) (o : Orientation) where
  candidates : CandidateConstraints app o
  constraints : Nat → List ConstraintData
  satisfiedId : Nat → Nat

/-- Fresh `Z3View`s. -/
def Encoder.ofCandidates {app : App Prob} {o : Orientation} (c : CandidateConstraints app o) :
    Encoder app o := ⟨c, fun _ => [], fun _ => 0⟩

def nonRoot (views : List Z3View) : List Z3View := views.filter fun view => decide (view.pos ≠ 0)

def Z3View.assertPosition (view : Z3View) : List (Expr K) :=
  [fun v => decide (view.positionStart v = view.start),
    fun v => decide (view.positionEnd v = view.end)]

def Z3View.constraintsSatisfied (view : Z3View) (id : Nat) : Expr K :=
  fun v => v.satisfied view.uniqueId id

section
variable [Field K] [LinearOrder K]

def addPositionConstraints (views : List Z3View) (fixedBias : Bool) : List (Expr K) :=
  views.flatMap fun view =>
    [fun v => decide (0 ≤ view.marginStart v), fun v => decide (0 ≤ view.marginEnd v)] ++
    view.assertPosition ++
    if fixedBias then [fun v => decide (view.bias v = 1 / 2)]
    else [fun v => decide (0 ≤ view.bias v), fun v => decide (view.bias v ≤ 1)]

end

def addAnchorConstraints (views : List Z3View) : List (Expr K) :=
  views.map fun view v =>
    if view.pos = 0 then decide (view.anchor v = 0) else decide (0 < view.anchor v)

/-- The name of the boolean that selects an attribute. -/
def attributeName (views : List Z3View) (attr : Attribute Prob) : ConstraintData :=
  let src := findView views attr.src
  let l := findView views attr.tgtPrimary
  if attr.type.isRelationalAnchor then src.constraintName attr.type .fixed l none
  else src.constraintName attr.type attr.viewSize l (attr.tgtSecondary.map (findView views))

/-- The formula of an attribute at the views of one app. -/
def attributeValue [Field K] [LinearOrder K] [FloorRing K] (views : List Z3View)
    (attr : Attribute Prob) : Expr K :=
  formula attr.type attr.viewSize (findView views attr.src) (findView views attr.tgtPrimary)
    (attr.tgtSecondary.map (findView views))

/-- What the anchor variable of the source must be when the attribute is selected. -/
def anchorValue (views : List Z3View) (attr : Attribute Prob) (v : Assignment K) : Int :=
  let l := findView views attr.tgtPrimary
  if attr.type.isRelationalAnchor then l.anchor v + 1
  else l.anchor v + (attr.tgtSecondary.elim 0 fun r => (findView views r).anchor v) + 1

section
variable {app : App Prob} {o : Orientation}

/-- The attributes that the loops of `AddSynAttributes` and `AddGenAttributes` go through. -/
def newAttributes (views : List Z3View) (c : CandidateConstraints app o) : List (Attribute Prob) :=
  (nonRoot views).flatMap fun view => c.getAttributes view.pos

/-- What `AddSynAttributes` does to the vectors `constraints`. -/
def Encoder.addConstraintExprs (enc : Encoder app o) (views : List Z3View) : Encoder app o :=
  { enc with
    constraints := fun p => enc.constraints p ++
      ((newAttributes views enc.candidates).filter fun attr => decide (attr.src = p)).map
        (attributeName views) }

def Encoder.finishAdding (enc : Encoder app o) : Encoder app o :=
  { enc with candidates := enc.candidates.finishAdding }

/-- `FinishedAddingConstraints` on views with the given vectors `constraints` and satisfied ids:
exactly one constraint of each non-root view is selected. -/
def assertExactlyOne (views : List Z3View) (constraints : Nat → List ConstraintData)
    (satisfiedId : Nat → Nat) : List (Expr K) :=
  (nonRoot views).map fun view v =>
    implies (view.constraintsSatisfied (satisfiedId view.pos) v)
      (exactlyOne v.select (constraints view.pos))

def assumeSatisfied (views : List Z3View) (satisfiedId : Nat → Nat) : List (Expr K) :=
  (nonRoot views).map fun view => view.constraintsSatisfied (satisfiedId view.pos)

def finishedAddingConstraints (views : List Z3View) (enc : Encoder app o) : List (Expr K) :=
  assertExactlyOne views enc.constraints enc.satisfiedId

def getAssumptions (views : List Z3View) (enc : Encoder app o) : List (Expr K) :=
  assumeSatisfied views enc.satisfiedId

end

section
variable [Field K] [LinearOrder K] [FloorRing K] {app : App Prob} {o : Orientation}

/-- The body of the loop of `AddSynAttributes`. `printed` is the real that `%f` prints for a
probability. -/
def synAttribute (printed : Prob → K) (views : List Z3View) (opt : Bool) (attr : Attribute Prob) :
    List (Expr K) :=
  let src := findView views attr.src
  [fun v => implies (v.select (attributeName views attr))
    (attributeValue views attr v && decide (src.anchor v = anchorValue views attr v))] ++
  if opt then
    [fun v => implies (v.select (attributeName views attr))
      (decide (src.cost v = printed attr.prob))]
  else []

def addSynAttributes (printed : Prob → K) (views : List Z3View) (c : CandidateConstraints app o)
    (opt : Bool) : List (Expr K) :=
  (newAttributes views c).flatMap (synAttribute printed views opt)

/-- The body of the loop of `AddGenAttributes`; `views` are those of a device. -/
def genAttribute (app : App Prob) (o : Orientation) (views : List Z3View) (attr : Attribute Prob) :
    Expr K :=
  let src := findView views attr.src
  fun v => implies (v.select (attributeName views attr))
    (attributeValue views attr v &&
      if attr.viewSize = .fixed then
        decide (src.positionStart v + (app.views[src.pos]?).elim 0 (·.size o) = src.positionEnd v)
      else decide (0 ≤ src.positionEnd v - src.positionStart v))

def addGenAttributes (views : List Z3View) (c : CandidateConstraints app o) : List (Expr K) :=
  (newAttributes views c).map (genAttribute app o views)

end

/-! ## Views by position -/

section
variable {app : App Prob} {o : Orientation} {d : Nat}

theorem convertViews_getElem? (app : App Prob) (o : Orientation) (d p : Nat) :
    (convertViews app o d)[p]? =
      (app.views[p]?).map fun view => ⟨p, o, d, view.startAt o, view.endAt o⟩ := by
  rw [convertViews, List.getElem?_map]
  cases h : app.views[p]? with
  | none => rfl
  | some view => simp [app.pos_eq p view h]

theorem findView_eq {p : Nat} {view : View Prob} (h : app.views[p]? = some view) :
    findView (convertViews app o d) p = ⟨p, o, d, view.startAt o, view.endAt o⟩ := by
  rw [findView, convertViews_getElem?, h]
  rfl

theorem findView_pos {p : Nat} (h : p < app.views.length) :
    (findView (convertViews app o d) p).pos = p := by
  rw [findView_eq (List.getElem?_eq_getElem h)]

theorem findView_uniqueId {p : Nat} (h : p < app.views.length) :
    (findView (convertViews app o d) p).uniqueId = uniqueId p o := by
  rw [findView_eq (List.getElem?_eq_getElem h)]
  rfl

theorem mem_convertViews {view : Z3View} :
    view ∈ convertViews app o d ↔
      ∃ p < app.views.length, findView (convertViews app o d) p = view := by
  rw [List.mem_iff_getElem?]
  constructor
  · rintro ⟨p, hp⟩
    refine ⟨p, ?_, by rw [findView, hp]; rfl⟩
    have := (List.getElem?_eq_some_iff.mp hp).1
    simpa [convertViews] using this
  · rintro ⟨p, hp, rfl⟩
    refine ⟨p, ?_⟩
    rw [findView_eq (List.getElem?_eq_getElem hp), convertViews_getElem?,
      List.getElem?_eq_getElem hp]
    rfl

/-- Each `Z3View` comes from a view of the app. -/
theorem mem_convertViews_view {app : App Prob} {o : Orientation} {view : Z3View}
    (h : view ∈ convertViews app o 0) :
    ∃ w ∈ app.views, findView (convertViews app o 0) w.pos = view ∧ view.pos = w.pos := by
  obtain ⟨p, hlt, rfl⟩ := mem_convertViews.mp h
  have hw := app.getElem_pos hlt
  exact ⟨app.views[p], List.getElem_mem hlt, by rw [hw], by rw [findView_pos hlt, hw]⟩

theorem mem_nonRoot {view : Z3View} :
    view ∈ nonRoot (convertViews app o d) ↔
      ∃ p, p ≠ 0 ∧ p < app.views.length ∧ findView (convertViews app o d) p = view := by
  rw [nonRoot, List.mem_filter, mem_convertViews, decide_eq_true_eq]
  constructor
  · rintro ⟨⟨p, hp, rfl⟩, h⟩
    rw [findView_pos hp] at h
    exact ⟨p, h, hp, rfl⟩
  · rintro ⟨p, h, hp, rfl⟩
    rw [findView_pos hp]
    exact ⟨⟨p, hp, rfl⟩, h⟩

theorem forall_convertViews {P : Z3View → Prop} :
    (∀ view ∈ convertViews app o d, P view) ↔
      ∀ p < app.views.length, P (findView (convertViews app o d) p) := by
  simp only [mem_convertViews, forall_exists_index, and_imp, forall_apply_eq_imp_iff₂]

theorem forall_nonRoot {P : Z3View → Prop} :
    (∀ view ∈ nonRoot (convertViews app o d), P view) ↔
      ∀ p, p ≠ 0 → p < app.views.length → P (findView (convertViews app o d) p) := by
  simp only [mem_nonRoot]
  constructor
  · intro h p hp hlt
    exact h _ ⟨p, hp, hlt, rfl⟩
  · rintro h view ⟨p, hp, hlt, rfl⟩
    exact h p hp hlt

theorem nonRoot_positions :
    (nonRoot (convertViews app o d)).map (·.pos) =
      (List.range app.views.length).filter fun p => decide (p ≠ 0) := by
  have hpos : (convertViews app o d).map (·.pos) = List.range app.views.length := by
    apply List.ext_getElem?
    intro p
    rw [List.getElem?_map, convertViews_getElem?]
    by_cases h : p < app.views.length
    · rw [List.getElem?_range h, List.getElem?_eq_getElem h]
      rfl
    · simp [h]
  rw [← hpos, nonRoot, List.filter_map]
  rfl

/-! ## The attributes of one view -/

/-- `device` may be the reference itself. -/
theorem mem_newAttributes {device : App Prob} {c : CandidateConstraints app o}
    {attr : Attribute Prob} :
    attr ∈ newAttributes (convertViews device o d) c ↔
      ∃ p, p ≠ 0 ∧ p < device.views.length ∧ attr ∈ c.getAttributes p := by
  rw [newAttributes, List.mem_flatMap]
  constructor
  · rintro ⟨view, hv, ha⟩
    obtain ⟨p, hp, hlt, rfl⟩ := mem_nonRoot.mp hv
    rw [findView_pos hlt] at ha
    exact ⟨p, hp, hlt, ha⟩
  · rintro ⟨p, hp, hlt, ha⟩
    refine ⟨_, mem_nonRoot.mpr ⟨p, hp, hlt, rfl⟩, ?_⟩
    rwa [findView_pos hlt]

/-- Every attribute of a view is its own, so a vector `constraints` only grows by the
candidates of its view. -/
theorem newAttributes_filter (c : CandidateConstraints app o) {p : Nat} (hp : p ≠ 0)
    (hlt : p < app.views.length) :
    (newAttributes (convertViews app o d) c).filter (fun attr => decide (attr.src = p)) =
      c.getAttributes p := by
  have hflat : newAttributes (convertViews app o d) c =
      ((nonRoot (convertViews app o d)).map (·.pos)).flatMap c.getAttributes := by
    rw [List.flatMap_map]
    rfl
  have hsingle (q : Nat) : (c.getAttributes q).filter (fun attr => decide (attr.src = p)) =
      if q = p then c.getAttributes p else [] := by
    by_cases h : q = p
    · rw [if_pos h, h]
      apply List.filter_eq_self.mpr
      intro attr ha
      exact decide_eq_true (CandidateConstraints.getAttributes_proper ha).own
    · rw [if_neg h]
      apply List.filter_eq_nil_iff.mpr
      intro attr ha
      rw [(CandidateConstraints.getAttributes_proper ha).own, decide_eq_true_eq]
      exact h
  rw [hflat, nonRoot_positions, List.filter_flatMap]
  simp only [hsingle]
  have hnodup : (((List.range app.views.length).filter fun q => decide (q ≠ 0)).map id).Nodup := by
    rw [List.map_id]
    exact List.nodup_range.filter _
  have hmem : p ∈ (List.range app.views.length).filter fun q => decide (q ≠ 0) := by
    simp [hp, hlt]
  rw [flatMap_eq_of_key hnodup hmem, if_pos rfl]
  intro q _ hq
  exact if_neg hq

theorem addConstraintExprs_constraints (enc : Encoder app o) {p : Nat} (hp : p ≠ 0)
    (hlt : p < app.views.length) :
    (enc.addConstraintExprs (convertViews app o d)).constraints p =
      enc.constraints p ++
        (enc.candidates.getAttributes p).map (attributeName (convertViews app o d)) := by
  simp only [Encoder.addConstraintExprs, newAttributes_filter enc.candidates hp hlt]

end

/-! ## What the assertions mean -/

section
variable {app : App Prob} {o : Orientation} {d : Nat} {v : Assignment K}

theorem models_assertExactlyOne {constraints : Nat → List ConstraintData}
    {satisfiedId : Nat → Nat} :
    Models (assertExactlyOne (convertViews app o d) constraints satisfiedId) v ↔
      ∀ p, p ≠ 0 → p < app.views.length →
        (v.satisfied (uniqueId p o) (satisfiedId p) = true →
          exactlyOne v.select (constraints p) = true) := by
  rw [assertExactlyOne, models_map, forall_nonRoot]
  apply forall₃_congr
  intro p _ hlt
  rw [implies_eq_true, Z3View.constraintsSatisfied, findView_uniqueId hlt, findView_pos hlt]

theorem models_assumeSatisfied {satisfiedId : Nat → Nat} :
    Models (assumeSatisfied (convertViews app o d) satisfiedId) v ↔
      ∀ p, p ≠ 0 → p < app.views.length → v.satisfied (uniqueId p o) (satisfiedId p) = true := by
  rw [assumeSatisfied, models_map, forall_nonRoot]
  apply forall₃_congr
  intro p _ hlt
  rw [Z3View.constraintsSatisfied, findView_uniqueId hlt, findView_pos hlt]

/-- With the assumptions, exactly one constraint of each non-root view is selected. -/
theorem exactlyOne_of_assumed {constraints : Nat → List ConstraintData}
    {satisfiedId : Nat → Nat}
    (hfin : Models (assertExactlyOne (convertViews app o d) constraints satisfiedId) v)
    (hassume : Models (assumeSatisfied (convertViews app o d) satisfiedId) v) {p : Nat}
    (hp : p ≠ 0) (hlt : p < app.views.length) : exactlyOne v.select (constraints p) = true :=
  models_assertExactlyOne.mp hfin p hp hlt (models_assumeSatisfied.mp hassume p hp hlt)

theorem models_assertPosition {p : Nat} {view : View Prob} (h : app.views[p]? = some view) :
    Models (findView (convertViews app o d) p).assertPosition v ↔
      v.positionStart (uniqueId p o) d = view.startAt o ∧
      v.positionEnd (uniqueId p o) d = view.endAt o := by
  rw [findView_eq h]
  simp only [Z3View.assertPosition, models_cons, decide_eq_true_eq, models_nil, and_true]
  rfl

variable [Field K] [LinearOrder K]

/-- The reference has the coordinates of its views, and no negative margins. -/
theorem models_addPositionConstraints {fixedBias : Bool} :
    Models (addPositionConstraints (convertViews app o 0) fixedBias) v ↔
      ∀ p view, app.views[p]? = some view →
        (0 ≤ v.marginStart (uniqueId p o) ∧ 0 ≤ v.marginEnd (uniqueId p o)) ∧
        (v.positionStart (uniqueId p o) 0 = view.startAt o ∧
          v.positionEnd (uniqueId p o) 0 = view.endAt o) ∧
        if fixedBias = true then v.bias (uniqueId p o) = 1 / 2
        else 0 ≤ v.bias (uniqueId p o) ∧ v.bias (uniqueId p o) ≤ 1 := by
  have hview {p : Nat} {view : View Prob} (h : app.views[p]? = some view) := findView_eq (o := o)
    (d := 0) h
  rw [addPositionConstraints, models_flatMap, forall_convertViews]
  constructor
  · intro h p view hp
    have := h p (List.getElem?_eq_some_iff.mp hp).1
    cases fixedBias <;> simpa [hview hp, Z3View.assertPosition, Z3View.marginStart,
      Z3View.marginEnd, Z3View.positionStart, Z3View.positionEnd, Z3View.bias, Z3View.uniqueId,
      and_assoc] using this
  · intro h p hlt
    have hp := List.getElem?_eq_getElem hlt
    have := h p _ hp
    cases fixedBias <;> simpa [hview hp, Z3View.assertPosition, Z3View.marginStart,
      Z3View.marginEnd, Z3View.positionStart, Z3View.positionEnd, Z3View.bias, Z3View.uniqueId,
      and_assoc] using this

variable [FloorRing K]

theorem models_addSynAttributes {printed : Prob → K} {c : CandidateConstraints app o}
    {opt : Bool} :
    Models (addSynAttributes printed (convertViews app o d) c opt) v ↔
      ∀ p, p ≠ 0 → p < app.views.length → ∀ attr ∈ c.getAttributes p,
        Models (synAttribute printed (convertViews app o d) opt attr) v := by
  rw [addSynAttributes, models_flatMap]
  simp only [mem_newAttributes]
  constructor
  · intro h p hp hlt attr ha
    exact h attr ⟨p, hp, hlt, ha⟩
  · rintro h attr ⟨p, hp, hlt, ha⟩
    exact h p hp hlt attr ha

theorem models_addGenAttributes {device : App Prob} {c : CandidateConstraints app o} :
    Models (addGenAttributes (convertViews device o d) c) v ↔
      ∀ p, p ≠ 0 → p < device.views.length → ∀ attr ∈ c.getAttributes p,
        genAttribute app o (convertViews device o d) attr v = true := by
  rw [addGenAttributes, models_map]
  simp only [mem_newAttributes]
  constructor
  · intro h p hp hlt attr ha
    exact h attr ⟨p, hp, hlt, ha⟩
  · rintro h attr ⟨p, hp, hlt, ha⟩
    exact h p hp hlt attr ha

theorem models_synAttribute {printed : Prob → K} {views : List Z3View} {opt : Bool}
    {attr : Attribute Prob} :
    Models (synAttribute printed views opt attr) v ↔
      (v.select (attributeName views attr) = true →
        attributeValue views attr v = true ∧
        (findView views attr.src).anchor v = anchorValue views attr v) ∧
      (opt = true → v.select (attributeName views attr) = true →
        (findView views attr.src).cost v = printed attr.prob) := by
  cases opt <;> simp [synAttribute]

end
end InferUI
