import InferUI.Generate
import InferUI.Selection
import Mathlib

/-!
# The symbolic enumeration of constraints

`AddFixedSizeRelationalConstraint`, `AddFixedSizeCenteringConstraint` and
`AddMatchConstraintCenteringConstraint`, which go through all targets and types by themselves,
and `FullSynthesis::Synthesize`, which lets them add everything.
-/

namespace InferUI
open Store
variable {Prob K : Type}

theorem exists_relational {type : ConstraintType} (h : type.isRelationalAnchor = true) :
    ∃ constraint ∈ (ConstraintRelationalFixedSize.constraints : List (Constraint K)),
      constraint.getType type.toOrientation = type := by
  have hmap (o : Orientation) : ConstraintRelationalFixedSize.constraints.map
      (fun constraint : Constraint K => constraint.getType o) = relationalTypes o := by
    cases o <;> rfl
  have hmem := mem_relationalTypes.mpr ⟨h, rfl⟩
  rw [← hmap, List.mem_map] at hmem
  exact hmem

/-- The two tables for pairs of targets list the same types in the same order. -/
def pairTypes : Orientation → List ConstraintType
  | .horizontal => [.l2lxr2r, .l2lxr2l, .l2rxr2r, .l2rxr2l]
  | .vertical => [.t2txb2b, .t2txb2t, .t2bxb2b, .t2bxb2t]

theorem mem_pairTypes {o : Orientation} {type : ConstraintType} :
    type ∈ pairTypes o ↔ type ∈ centerTypes o := by
  cases o <;> cases type <;> decide

variable [Field K] [LinearOrder K] [FloorRing K]

/-- A constraint that an enumeration adds for a view. -/
structure Enumerated (K : Type) where
  type : ConstraintType
  size : ViewSize
  l : Z3View
  r : Option Z3View
  value : Expr K

def Enumerated.name (entry : Enumerated K) (src : Z3View) : ConstraintData :=
  src.constraintName entry.type entry.size entry.l entry.r

/-- The assertion about an enumerated constraint of `src`. -/
def Enumerated.assertion (entry : Enumerated K) (src : Z3View) : Expr K :=
  fun v => implies (v.select (entry.name src))
    (entry.value v && decide (src.anchor v =
      entry.l.anchor v + (entry.r.elim 0 fun r => r.anchor v) + 1))

def addFixedSizeRelationalConstraint (o : Orientation) (src : Z3View) (views : List Z3View)
    (filter : ConstraintData → Z3View → Bool) : List (Enumerated K) :=
  views.flatMap fun tgt =>
    if src.pos = tgt.pos then []
    else ConstraintRelationalFixedSize.constraints.filterMap fun constraint =>
      let type := constraint.getType o
      if tgt.pos = 0 ∧ type.isOpposite = true then none
      else if !filter (src.constraintName type .fixed tgt none) src then none
      else some ⟨type, .fixed, tgt, none, constraint.fn src tgt none⟩

/-- The two enumerations over pairs of targets differ in their table and their size. -/
def addCenteringConstraint (constraints : List (Constraint K)) (size : ViewSize) (o : Orientation)
    (src : Z3View) (views : List Z3View) (filter : ConstraintData → Z3View → Bool) :
    List (Enumerated K) :=
  product views fun l r =>
    if l.pos = src.pos ∨ r.pos = src.pos then []
    else constraints.filterMap fun constraint =>
      let type := constraint.getType o
      if (type = .l2rxr2l ∨ type = .t2bxb2t) ∧ l.pos = r.pos then none
      else if l.pos = 0 ∧ r.pos = 0 ∧ type.isSameSide = true then none
      else if !filter (src.constraintName type size l (some r)) src then none
      else some ⟨type, size, l, some r, constraint.fn src l (some r)⟩

def addFixedSizeCenteringConstraint (o : Orientation) (src : Z3View) (views : List Z3View)
    (filter : ConstraintData → Z3View → Bool) : List (Enumerated K) :=
  addCenteringConstraint ConstraintCenteringFixedSize.constraints .fixed o src views filter

def addMatchConstraintCenteringConstraint (o : Orientation) (src : Z3View) (views : List Z3View)
    (filter : ConstraintData → Z3View → Bool) : List (Enumerated K) :=
  addCenteringConstraint ConstraintCenteringMatchConstraint.constraints .matchConstraint o src
    views filter

/-- All constraints that are enumerated for a view when the filter is always true, in the order
in which they are appended to its vector `constraints`. -/
def enumerated (o : Orientation) (src : Z3View) (views : List Z3View) : List (Enumerated K) :=
  addFixedSizeRelationalConstraint o src views (fun _ _ => true) ++
    addFixedSizeCenteringConstraint o src views (fun _ _ => true) ++
    addMatchConstraintCenteringConstraint o src views fun _ _ => true

/-- The vector `constraints` of a view after `Synthesize` has enumerated them. -/
def synthesizeNames (K : Type) [Field K] [LinearOrder K] [FloorRing K] (app : App Prob)
    (o : Orientation) (p : Nat) : List ConstraintData :=
  let views := convertViews app o 0
  let src := findView views p
  (enumerated o src views : List (Enumerated K)).map fun entry => entry.name src

/-- What the loops of `ForEachNonRootView` add for the views of one screen. -/
def enumeratedAssertions (o : Orientation) (views : List Z3View) : List (Expr K) :=
  (nonRoot views).flatMap fun src => (enumerated o src views).map fun entry => entry.assertion src

/-- The assertions and assumptions of `Synthesize`. The bias is free, and there is no device. -/
def synthesizeAssertions (app : App Prob) (o : Orientation) : List (Expr K) :=
  let views := convertViews app o 0
  addPositionConstraints views false ++ addAnchorConstraints views ++
    enumeratedAssertions o views ++ assertExactlyOne views (synthesizeNames K app o) (fun _ => 0) ++
    assumeSatisfied views fun _ => 0

/-! ## What is enumerated -/

theorem fn_relational {o : Orientation} {constraint : Constraint K}
    (h : constraint ∈ ConstraintRelationalFixedSize.constraints) :
    (constraint.getType o).isRelationalAnchor = true ∧ (constraint.getType o).toOrientation = o ∧
      constraint.fn = formula (constraint.getType o) .fixed := by
  simp only [ConstraintRelationalFixedSize.constraints, List.mem_cons, List.not_mem_nil,
    or_false] at h
  obtain rfl | rfl | rfl | rfl := h <;> cases o <;> exact ⟨rfl, rfl, rfl⟩

theorem fn_centering {o : Orientation} {constraint : Constraint K}
    (h : constraint ∈ ConstraintCenteringFixedSize.constraints) :
    (constraint.getType o).isRelationalAnchor = false ∧ (constraint.getType o).toOrientation = o ∧
      constraint.fn = formula (constraint.getType o) .fixed := by
  simp only [ConstraintCenteringFixedSize.constraints, List.mem_cons, List.not_mem_nil,
    or_false] at h
  obtain rfl | rfl | rfl | rfl := h <;> cases o <;> exact ⟨rfl, rfl, rfl⟩

theorem fn_match {o : Orientation} {constraint : Constraint K}
    (h : constraint ∈ ConstraintCenteringMatchConstraint.constraints) :
    (constraint.getType o).isRelationalAnchor = false ∧ (constraint.getType o).toOrientation = o ∧
      constraint.fn = formula (constraint.getType o) .matchConstraint := by
  simp only [ConstraintCenteringMatchConstraint.constraints, List.mem_cons, List.not_mem_nil,
    or_false] at h
  obtain rfl | rfl | rfl | rfl := h <;> cases o <;> exact ⟨rfl, rfl, rfl⟩

theorem exists_centering {type : ConstraintType} (h : type.isRelationalAnchor = false) :
    (∃ constraint ∈ (ConstraintCenteringFixedSize.constraints : List (Constraint K)),
      constraint.getType type.toOrientation = type) ∧
    ∃ constraint ∈ (ConstraintCenteringMatchConstraint.constraints : List (Constraint K)),
      constraint.getType type.toOrientation = type := by
  have hfixed (o : Orientation) : ConstraintCenteringFixedSize.constraints.map
      (fun constraint : Constraint K => constraint.getType o) = pairTypes o := by
    cases o <;> rfl
  have hmatch (o : Orientation) : ConstraintCenteringMatchConstraint.constraints.map
      (fun constraint : Constraint K => constraint.getType o) = pairTypes o := by
    cases o <;> rfl
  have hmem := mem_pairTypes.mpr (mem_centerTypes.mpr ⟨h, rfl⟩)
  have hmem' := hmem
  rw [← hfixed, List.mem_map] at hmem
  rw [← hmatch, List.mem_map] at hmem'
  exact ⟨hmem, hmem'⟩

/-- The centering types that are left out for a pair of targets. -/
def skipsPair (type : ConstraintType) (l r : Nat) : Prop :=
  (type = .l2rxr2l ∨ type = .t2bxb2t) ∧ l = r ∨ l = 0 ∧ r = 0 ∧ type.isSameSide = true

theorem mem_addFixedSizeRelationalConstraint {o : Orientation} {src : Z3View}
    {views : List Z3View} {entry : Enumerated K} :
    entry ∈ addFixedSizeRelationalConstraint o src views (fun _ _ => true) ↔
      ∃ tgt ∈ views, src.pos ≠ tgt.pos ∧ ∃ type ∈ relationalTypes o,
        ¬ (tgt.pos = 0 ∧ type.isOpposite = true) ∧
        entry = ⟨type, .fixed, tgt, none, formula type .fixed src tgt none⟩ := by
  rw [addFixedSizeRelationalConstraint, List.mem_flatMap]
  apply exists_congr
  intro tgt
  apply and_congr_right
  intro _
  by_cases hpos : src.pos = tgt.pos
  · simp [hpos]
  · simp only [hpos, ↓reduceIte, List.mem_filterMap, Bool.not_true, Bool.false_eq_true,
      Option.ite_none_left_eq_some, Option.some.injEq, ne_eq, not_false_eq_true, true_and]
    constructor
    · rintro ⟨constraint, hc, hskip, rfl⟩
      obtain ⟨hrel, ho, hfn⟩ := fn_relational (o := o) hc
      exact ⟨_, mem_relationalTypes.mpr ⟨hrel, ho⟩, hskip, by rw [hfn]⟩
    · rintro ⟨type, ht, hskip, rfl⟩
      obtain ⟨hrel, rfl⟩ := mem_relationalTypes.mp ht
      obtain ⟨constraint, hc, htype⟩ := exists_relational (K := K) hrel
      obtain ⟨_, _, hfn⟩ := fn_relational (o := type.toOrientation) hc
      exact ⟨constraint, hc, by rwa [htype], by rw [hfn, htype]⟩

theorem mem_addCenteringConstraint {constraints : List (Constraint K)} {size : ViewSize}
    {o : Orientation} {src : Z3View} {views : List Z3View}
    (htable : ∀ constraint ∈ constraints, (constraint.getType o).isRelationalAnchor = false ∧
      (constraint.getType o).toOrientation = o ∧
      constraint.fn = formula (constraint.getType o) size)
    (hcover : ∀ type ∈ centerTypes o, ∃ constraint ∈ constraints, constraint.getType o = type)
    {entry : Enumerated K} :
    entry ∈ addCenteringConstraint constraints size o src views (fun _ _ => true) ↔
      ∃ l ∈ views, ∃ r ∈ views, l.pos ≠ src.pos ∧ r.pos ≠ src.pos ∧ ∃ type ∈ centerTypes o,
        ¬ skipsPair type l.pos r.pos ∧
        entry = ⟨type, size, l, some r, formula type size src l (some r)⟩ := by
  rw [addCenteringConstraint, mem_product]
  apply exists_congr
  intro l
  apply and_congr_right
  intro _
  apply exists_congr
  intro r
  apply and_congr_right
  intro _
  by_cases hpos : l.pos = src.pos ∨ r.pos = src.pos
  · rw [if_pos hpos]
    constructor
    · intro h
      cases h
    · rintro ⟨hl, hr, _⟩
      exact absurd hpos (by simp [hl, hr])
  · rw [if_neg hpos]
    rw [not_or] at hpos
    simp only [List.mem_filterMap, Bool.not_true, Bool.false_eq_true, ↓reduceIte,
      Option.ite_none_left_eq_some, Option.some.injEq]
    constructor
    · rintro ⟨constraint, hc, h1, h2, rfl⟩
      obtain ⟨hrel, ho, hfn⟩ := htable constraint hc
      refine ⟨hpos.1, hpos.2, _, mem_centerTypes.mpr ⟨hrel, ho⟩, ?_, by rw [hfn]⟩
      rintro (h | h)
      · exact h1 h
      · exact h2 h
    · rintro ⟨_, _, type, ht, hskip, rfl⟩
      obtain ⟨constraint, hc, htype⟩ := hcover type ht
      obtain ⟨_, _, hfn⟩ := htable constraint hc
      rw [skipsPair, not_or] at hskip
      exact ⟨constraint, hc, by rw [htype]; exact hskip.1, by rw [htype]; exact hskip.2,
        by rw [hfn, htype]⟩

/-- What is enumerated for a view: every type at every target or pair of targets, less those
the code leaves out, each with its own formula. -/
theorem mem_enumerated {o : Orientation} {src : Z3View} {views : List Z3View}
    {entry : Enumerated K} :
    entry ∈ enumerated o src views ↔
      (∃ tgt ∈ views, src.pos ≠ tgt.pos ∧ ∃ type ∈ relationalTypes o,
        ¬ (tgt.pos = 0 ∧ type.isOpposite = true) ∧
        entry = ⟨type, .fixed, tgt, none, formula type .fixed src tgt none⟩) ∨
      ∃ size, (size = .fixed ∨ size = .matchConstraint) ∧ ∃ l ∈ views, ∃ r ∈ views,
        l.pos ≠ src.pos ∧ r.pos ≠ src.pos ∧ ∃ type ∈ centerTypes o, ¬ skipsPair type l.pos r.pos ∧
        entry = ⟨type, size, l, some r, formula type size src l (some r)⟩ := by
  have hcover (type : ConstraintType) (ht : type ∈ centerTypes o) := by
    obtain ⟨hrel, ho⟩ := mem_centerTypes.mp ht
    have := exists_centering (K := K) hrel
    rwa [ho] at this
  rw [enumerated, List.mem_append, List.mem_append, mem_addFixedSizeRelationalConstraint,
    addFixedSizeCenteringConstraint, addMatchConstraintCenteringConstraint,
    mem_addCenteringConstraint (fun _ hc => fn_centering hc) fun type ht => (hcover type ht).1,
    mem_addCenteringConstraint (fun _ hc => fn_match hc) fun type ht => (hcover type ht).2,
    or_assoc]
  apply or_congr Iff.rfl
  constructor
  · rintro (h | h)
    · exact ⟨.fixed, Or.inl rfl, h⟩
    · exact ⟨.matchConstraint, Or.inr rfl, h⟩
  · rintro ⟨size, rfl | rfl, h⟩
    · exact Or.inl h
    · exact Or.inr h

/-! ## The enumeration as attributes -/

/-- An attribute whose constraint is enumerated for view `pos` of an app with `n` views. -/
structure Attribute.Enumerable (attr : Attribute Prob) (n : Nat) (o : Orientation) (pos : Nat) :
    Prop where
  proper : attr.Proper n o pos
  others : ∀ t ∈ attr.targets, t ≠ pos
  relational : attr.type.isRelationalAnchor = true →
    ¬ (attr.tgtPrimary = 0 ∧ attr.type.isOpposite = true)
  center : attr.type.isRelationalAnchor = false →
    (attr.viewSize = .fixed ∨ attr.viewSize = .matchConstraint) ∧
      ∀ r, attr.tgtSecondary = some r → ¬ skipsPair attr.type attr.tgtPrimary r

/-- The entry of an enumeration and the attribute name one constraint, with one formula. -/
def Enumerated.StandsFor (entry : Enumerated K) (attr : Attribute Prob) (views : List Z3View)
    (pos : Nat) : Prop :=
  entry.name (findView views pos) = attributeName views attr ∧
    entry.value = attributeValue views attr

section
variable {app : App Prob} {o : Orientation} {d p : Nat}

/-- Every entry stands for an attribute. -/
theorem enumerable_of_mem [Zero Prob] (hlt : p < app.views.length) {entry : Enumerated K}
    (h : entry ∈ enumerated o (findView (convertViews app o d) p) (convertViews app o d)) :
    ∃ attr : Attribute Prob, attr.Enumerable app.views.length o p ∧
      entry.StandsFor attr (convertViews app o d) p := by
  obtain ⟨tgt, htgt, hne, type, ht, hskip, rfl⟩ | ⟨size, hsize, l, hl, r, hr, hlne, hrne, type, ht,
    hskip, rfl⟩ := mem_enumerated.mp h
  · obtain ⟨t, htlt, rfl⟩ := mem_convertViews.mp htgt
    obtain ⟨hrel, ho⟩ := mem_relationalTypes.mp ht
    rw [findView_pos htlt] at hskip
    rw [findView_pos htlt, findView_pos hlt] at hne
    refine ⟨.ofRelational type .fixed 0 p t, ⟨⟨rfl, ho, htlt, fun _ => ⟨rfl, rfl⟩, ?_⟩, ?_,
      fun _ => hskip, ?_⟩, ?_, rfl⟩
    · intro hcen
      exact absurd (hrel.symm.trans hcen) (by decide)
    · intro t' ht'
      simp only [Attribute.targets, Attribute.ofRelational, hrel, ↓reduceIte,
        List.mem_singleton] at ht'
      exact ht' ▸ hne.symm
    · intro hcen
      exact absurd (hrel.symm.trans hcen) (by decide)
    · simp only [Enumerated.name, attributeName, Attribute.ofRelational, hrel, ↓reduceIte]
  · obtain ⟨lp, hllt, rfl⟩ := mem_convertViews.mp hl
    obtain ⟨rp, hrlt, rfl⟩ := mem_convertViews.mp hr
    obtain ⟨hcen, ho⟩ := mem_centerTypes.mp ht
    rw [findView_pos hllt, findView_pos hrlt] at hskip
    rw [findView_pos hllt, findView_pos hlt] at hlne
    rw [findView_pos hrlt, findView_pos hlt] at hrne
    refine ⟨.ofCenter type size 0 0 p lp rp, ⟨⟨rfl, ho, hllt, ?_, fun _ => ⟨rp, hrlt, rfl⟩⟩, ?_,
      ?_, fun _ => ⟨hsize, ?_⟩⟩, ?_, rfl⟩
    · intro hrel
      exact absurd (hrel.symm.trans hcen) (by decide)
    · intro t ht'
      simp only [Attribute.targets, Attribute.ofCenter, hcen, Bool.false_eq_true, ↓reduceIte,
        Option.toList_some, List.mem_cons, List.not_mem_nil, or_false] at ht'
      obtain rfl | rfl := ht'
      · exact hlne
      · exact hrne
    · intro hrel
      exact absurd (hrel.symm.trans hcen) (by decide)
    · intro r' hr'
      cases hr'
      exact hskip
    · simp only [Enumerated.name, attributeName, Attribute.ofCenter, hcen, Bool.false_eq_true,
        ↓reduceIte, Option.map_some]

/-- An attribute that is enumerated on one screen has its entry on every screen. -/
theorem mem_of_enumerable {attr : Attribute Prob} (h : attr.Enumerable app.views.length o p)
    (hlt : p < app.views.length) :
    ∃ entry : Enumerated K,
      entry ∈ enumerated o (findView (convertViews app o d) p) (convertViews app o d) ∧
      entry.StandsFor attr (convertViews app o d) p := by
  have hproper := h.proper
  have hview (q : Nat) (hq : q < app.views.length) :
      findView (convertViews app o d) q ∈ convertViews app o d :=
    mem_convertViews.mpr ⟨q, hq, rfl⟩
  have hprimary := h.others _ attr.primary_mem_targets
  cases hrel : attr.type.isRelationalAnchor with
  | true =>
    obtain ⟨hnone, hsize⟩ := hproper.relational hrel
    refine ⟨_, mem_enumerated.mpr (Or.inl ⟨_, hview _ hproper.primary, ?_, attr.type,
      mem_relationalTypes.mpr ⟨hrel, hproper.orientation⟩, ?_, rfl⟩), ?_, ?_⟩
    · rw [findView_pos hlt, findView_pos hproper.primary]
      exact hprimary.symm
    · rw [findView_pos hproper.primary]
      exact h.relational hrel
    · simp only [Enumerated.name, attributeName, hproper.own, hrel, ↓reduceIte]
    · simp only [attributeValue, hproper.own, hnone, hsize, Option.map_none]
  | false =>
    obtain ⟨r, hr, hsome⟩ := hproper.center hrel
    obtain ⟨hsize, hskip⟩ := h.center hrel
    refine ⟨_, mem_enumerated.mpr (Or.inr ⟨attr.viewSize, hsize, _, hview _ hproper.primary, _,
      hview r hr, ?_, ?_, attr.type, mem_centerTypes.mpr ⟨hrel, hproper.orientation⟩, ?_, rfl⟩),
      ?_, ?_⟩
    · rw [findView_pos hlt, findView_pos hproper.primary]
      exact hprimary
    · rw [findView_pos hlt, findView_pos hr]
      exact h.others r (Attribute.secondary_mem_targets hrel hsome)
    · rw [findView_pos hproper.primary, findView_pos hr]
      exact hskip r hsome
    · simp only [Enumerated.name, attributeName, hproper.own, hrel, hsome, Bool.false_eq_true,
        ↓reduceIte, Option.map_some]
    · simp only [attributeValue, hproper.own, hsome, Option.map_some]

/-- A selected constraint holds on every screen it is enumerated for. -/
theorem enumerable_holds {attr : Attribute Prob} (h : attr.Enumerable app.views.length o p)
    (hp : p ≠ 0) (hlt : p < app.views.length) {v : Assignment K}
    (hv : Models (enumeratedAssertions o (convertViews app o d)) v)
    (hsel : v.select (attributeName (convertViews app o d) attr) = true) :
    attributeValue (convertViews app o d) attr v = true := by
  obtain ⟨entry, hentry, hname, hvalue⟩ := mem_of_enumerable (K := K) (d := d) h hlt
  rw [enumeratedAssertions, models_flatMap, forall_nonRoot] at hv
  have hassertion := models_map.mp (hv p hp hlt) entry hentry
  rw [Enumerated.assertion, implies_eq_true, hname, hvalue, Bool.and_eq_true] at hassertion
  exact (hassertion hsel).1

end
end InferUI
