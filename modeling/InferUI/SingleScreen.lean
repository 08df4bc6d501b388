import InferUI.Agreement
import InferUI.MultiDevice
import InferUI.RootAnchor

/-!
# Single-screen synthesis is satisfiable

Selecting for each view the candidate anchored to the root that `InitAnchor` found gives a
model: all anchor variables are 1, and at the concrete positions the formula of the candidate
holds with the margins that the generator had before it rounded them.
-/

namespace InferUI
open Store CandidateConstraints
variable {Prob K : Type} {app : App Prob} {o : Orientation}

/-! ## Selecting the anchors -/

/-- What is needed of a working set from which the anchors are selected, with the margins at
which their formulas hold. -/
structure RootAnchored (K : Type) [Field K] [LinearOrder K] [FloorRing K]
    (c : CandidateConstraints app o) (margins : Nat → Int × Int) : Prop where
  fresh : ∀ p, c.constraintsAdded p = 0
  anchor : ∀ p, p ≠ 0 → p < app.views.length → ∃ attr, c.anchorAttribute p = some attr ∧
    anchorsToRoot app attr = true ∧ attr.SoundAt K app o p (margins p).1 (margins p).2
  root : margins 0 = (0, 0)
  distinct : ∀ p, p ≠ 0 → p < app.views.length →
    (c.scorer.candidates p).Pairwise ConstraintCache.Distinct

/-- The assignment that selects the anchors; `positions` gives the start and the end of a view
on a device. -/
def anchoredModel [Field K] (printed : Prob → K) (c : CandidateConstraints app o)
    (margins : Nat → Int × Int) (positions : Nat → Nat → Int × Int) : Assignment K where
  positionStart u d := (positions (u - 1000 * o.toIndex) d).1
  positionEnd u d := (positions (u - 1000 * o.toIndex) d).2
  marginStart u := (margins (u - 1000 * o.toIndex)).1
  marginEnd u := (margins (u - 1000 * o.toIndex)).2
  anchor u := if u - 1000 * o.toIndex = 0 then 0 else 1
  bias _ := 1 / 2
  cost u := (c.anchorAttribute (u - 1000 * o.toIndex)).elim 0 fun attr => printed attr.prob
  satisfied _ _ := true
  select name := (c.anchorAttribute name.src).any fun attr =>
    decide (attributeName (convertViews app o 0) attr = name)

/-- The positions of the reference, also for the devices. -/
def referencePositions (app : App Prob) (o : Orientation) (p : Nat) : Int × Int :=
  (app.views[p]?).elim (0, 0) fun view => (view.startAt o, view.endAt o)

theorem targets_of_anchorsToRoot (hroot : app.Rooted) {attr : Attribute Prob} {p : Nat}
    (hproper : attr.Proper app.views.length o p) (h : anchorsToRoot app attr = true) :
    ∀ t ∈ attr.targets, t = 0 := by
  rw [anchorsToRoot, Bool.and_eq_true, decide_eq_true_eq, hroot.idOf_eq_zero hproper.primary] at h
  obtain ⟨hprimary, hsecondary⟩ := h
  intro t ht
  rw [Attribute.targets] at ht
  cases hrel : attr.type.isRelationalAnchor with
  | true =>
    rw [hrel, if_pos rfl, List.mem_singleton] at ht
    exact ht.trans hprimary
  | false =>
    obtain ⟨r, hr, hsome⟩ := hproper.center hrel
    simp only [hrel, hsome, Bool.false_eq_true, ↓reduceIte, Option.toList_some, List.mem_cons,
      List.not_mem_nil, or_false] at ht
    simp only [ConstraintType.isCenterAnchor, hrel, hsome, Bool.not_false, Bool.not_true,
      Option.any_some, Bool.false_or, decide_eq_true_eq, hroot.idOf_eq_zero hr] at hsecondary
    obtain rfl | rfl := ht
    · exact hprimary
    · exact hsecondary

/-- A valid candidate whose targets are all the root is not tied twice to one edge of it. -/
theorem not_sameSide_of_root {attr : Attribute Prob} {p : Nat} (hroot : app.Rooted)
    (hproper : attr.Proper app.views.length o p)
    (hvalid : ConstraintCache.isValid app attr = true) (hanchors : anchorsToRoot app attr = true) :
    ¬ (attr.type.isSameSide = true ∧ attr.tgtSecondary = some attr.tgtPrimary) := by
  rintro ⟨hsame, hsecondary⟩
  have hprimary : attr.tgtPrimary = 0 := by
    rw [anchorsToRoot, Bool.and_eq_true, decide_eq_true_eq,
      hroot.idOf_eq_zero hproper.primary] at hanchors
    exact hanchors.1
  obtain ⟨s, hs, hrel, _⟩ | ⟨s, hs, hrel, _⟩ | ⟨s, e, hs, _, hse⟩ := attr.type.sides_cases
  · rw [(hproper.relational hrel).1] at hsecondary
    cases hsecondary
  · rw [(hproper.relational hrel).1] at hsecondary
    cases hsecondary
  · rw [hse, decide_eq_true_eq] at hsame
    rw [isValid_center hroot hs hproper.primary hproper.primary hsecondary] at hvalid
    exact hvalid (Or.inr ⟨hprimary, hprimary, hsame⟩)

section
variable [Field K] {printed : Prob → K} {c : CandidateConstraints app o}
variable {margins : Nat → Int × Int} {positions : Nat → Nat → Int × Int}

/-- Only the anchor of a view is selected. -/
theorem anchoredModel_select {p : Nat} (hlt : p < app.views.length) {anchor attr : Attribute Prob}
    (hanchor : c.anchorAttribute p = some anchor)
    (hproper : attr.Proper app.views.length o p)
    (hanchorProper : anchor.Proper app.views.length o p) :
    (anchoredModel printed c margins positions).select
        (attributeName (convertViews app o 0) attr) = true ↔
      anchor.Constrains attr.type attr.viewSize attr.tgtPrimary attr.tgtSecondary := by
  simp only [anchoredModel, attributeName_eq rfl hproper hlt, hanchor, Option.any_some,
    decide_eq_true_eq, attributeName_eq rfl hanchorProper hlt, ConstraintData.mk.injEq, true_and,
    Attribute.Constrains]
  have hsecondary : anchor.tgtSecondary.elim (-1) (fun r => (r : Int)) =
      attr.tgtSecondary.elim (-1) (fun r => (r : Int)) ↔
      anchor.tgtSecondary = attr.tgtSecondary := by
    cases anchor.tgtSecondary <;> cases attr.tgtSecondary <;> simp
  rw [hsecondary]

theorem anchoredModel_concrete (hpositions : ∀ p, positions p 0 = referencePositions app o p) :
    Concrete app o (anchoredModel printed c margins positions) := by
  intro p view hview
  simp only [anchoredModel, uniqueId_sub, hpositions, referencePositions, hview, Option.elim_some,
    and_self]

variable [LinearOrder K] [FloorRing K]

theorem RootAnchored.getAttributes (h : RootAnchored K c margins) {p : Nat} (hp : p ≠ 0)
    (hlt : p < app.views.length) : ∃ anchor rest, c.anchorAttribute p = some anchor ∧
      c.getAttributes p = anchor :: rest ∧ anchorsToRoot app anchor = true ∧
      anchor.SoundAt K app o p (margins p).1 (margins p).2 ∧
      ∀ other ∈ rest, ConstraintCache.Distinct anchor other := by
  obtain ⟨anchor, hanchor, hroot, hsound⟩ := h.anchor p hp hlt
  obtain ⟨rest, hset, hdistinct⟩ := workingSet_anchor (h.distinct p hp hlt) hanchor
  exact ⟨anchor, rest, hanchor, by rw [getAttributes_eq_workingSet (h.fresh p), hset], hroot,
    hsound, hdistinct⟩

variable (printed positions) in
/-- In the working set the anchor is selected, and nothing else. -/
theorem RootAnchored.select_iff (h : RootAnchored K c margins) {p : Nat} (hp : p ≠ 0)
    (hlt : p < app.views.length) : ∃ anchor rest, c.anchorAttribute p = some anchor ∧
      c.getAttributes p = anchor :: rest ∧ anchorsToRoot app anchor = true ∧
      anchor.SoundAt K app o p (margins p).1 (margins p).2 ∧
      (anchoredModel printed c margins positions).select
        (attributeName (convertViews app o 0) anchor) = true ∧
      ∀ other ∈ rest, ¬ (anchoredModel printed c margins positions).select
        (attributeName (convertViews app o 0) other) = true := by
  obtain ⟨anchor, rest, hanchor, hset, hroot, hsound, hdistinct⟩ := h.getAttributes hp hlt
  have hproper (attr : Attribute Prob) (hattr : attr ∈ anchor :: rest) :
      attr.Proper app.views.length o p :=
    getAttributes_proper (hset ▸ hattr)
  have hown := hproper anchor List.mem_cons_self
  refine ⟨anchor, rest, hanchor, hset, hroot, hsound, ?_, ?_⟩
  · rw [anchoredModel_select hlt hanchor hown hown]
    exact ⟨rfl, rfl, rfl, rfl⟩
  · intro other hother
    rw [anchoredModel_select hlt hanchor (hproper other (List.mem_cons_of_mem anchor hother)) hown]
    exact hdistinct other hother

theorem anchoredModel_margins (h : RootAnchored K c margins) {p : Nat}
    (hlt : p < app.views.length) :
    0 ≤ (anchoredModel printed c margins positions).marginStart (uniqueId p o) ∧
      0 ≤ (anchoredModel printed c margins positions).marginEnd (uniqueId p o) := by
  simp only [anchoredModel, uniqueId_sub]
  by_cases hp : p = 0
  · rw [hp, h.root]
    exact ⟨le_rfl, le_rfl⟩
  · obtain ⟨_, _, _, hsound⟩ := h.anchor p hp hlt
    exact ⟨hsound.start, hsound.end⟩

theorem anchoredModel_positions (h : RootAnchored K c margins)
    (hpositions : ∀ p, positions p 0 = referencePositions app o p) :
    Models (addPositionConstraints (convertViews app o 0) true)
      (anchoredModel printed c margins positions) := by
  rw [models_addPositionConstraints]
  intro p view hview
  exact ⟨anchoredModel_margins h (List.getElem?_eq_some_iff.mp hview).1,
    anchoredModel_concrete hpositions p view hview, rfl⟩

/-- The reference part of the assertions holds, wherever the devices put the views. -/
theorem anchoredModel_selection (hroot : app.Rooted) (h : RootAnchored K c margins) {opt : Bool}
    (hpositions : ∀ p, positions p 0 = referencePositions app o p) :
    Models (selectionAssertions printed c opt) (anchoredModel printed c margins positions) := by
  have hanchorOf (p : Nat) : (anchoredModel printed c margins positions).anchor (uniqueId p o) =
      if p = 0 then 0 else 1 := by
    simp only [anchoredModel, uniqueId_sub]
  simp only [selectionAssertions, models_append, finishedAddingConstraints, getAssumptions]
  refine ⟨⟨⟨?_, ?_⟩, ?_⟩, ?_⟩
  · rw [models_addAnchorConstraints]
    intro p _
    rw [hanchorOf]
    split <;> simp
  · rw [models_addSynAttributes]
    intro p hp hlt attr hattr
    obtain ⟨anchor, rest, hanchor, hset, hanchors, hsound, _, hothers⟩ :=
      h.select_iff printed positions hp hlt
    have hproper := getAttributes_proper hattr
    rw [hset, List.mem_cons] at hattr
    rw [models_synAttribute]
    obtain rfl | hrest := hattr
    · refine ⟨fun _ => ⟨?_, ?_⟩, fun _ _ => ?_⟩
      · apply hsound.value _ (anchoredModel_concrete hpositions)
        refine ⟨?_, ?_, rfl⟩ <;> simp only [anchoredModel, uniqueId_sub]
      · have hzero := targets_of_anchorsToRoot hroot hproper hanchors
        have hsum : (attr.targets.map fun t =>
            (anchoredModel printed c margins positions).anchor (uniqueId t o)).sum = 0 := by
          apply List.sum_eq_zero
          intro x hx
          obtain ⟨t, ht, rfl⟩ := List.mem_map.mp hx
          rw [hanchorOf, if_pos (hzero t ht)]
        rw [anchorValue_eq hproper, hsum, hproper.own, Z3View.anchor, findView_uniqueId hlt,
          hanchorOf, if_neg hp]
        rfl
      · rw [hproper.own, Z3View.cost, findView_uniqueId hlt]
        simp only [anchoredModel, uniqueId_sub, hanchor, Option.elim_some]
    · have hnot := hothers attr hrest
      exact ⟨fun hsel => absurd hsel hnot, fun _ hsel => absurd hsel hnot⟩
  · rw [models_assertExactlyOne]
    intro p hp hlt _
    obtain ⟨anchor, rest, _, hset, _, _, hselected, hothers⟩ :=
      h.select_iff printed positions hp hlt
    rw [addConstraintExprs_constraints _ hp hlt, Encoder.ofCandidates, List.nil_append, hset,
      exactlyOne_map]
    exact exactlyOne_cons hselected hothers
  · rw [models_assumeSatisfied]
    intro p _ _
    rfl

end

/-! ## Without devices -/

section
variable [Zero Prob] [LinearOrder Prob]
variable [Field K] [LinearOrder K] [IsStrictOrderedRing K] [FloorRing K]

/-- The candidates with which `GetSatConstraints` starts are anchored to the root. -/
theorem initialCandidates_rootAnchored (hroot : app.Rooted) (hinside : app.InsideRoot)
    (hsizes : app.FreeSizes) (model : ProbModel Prob) (sort : StdSort Prob) :
    ∃ margins,
      RootAnchored K (initialCandidates (fun o => .ofModel model sort app hroot o) o) margins := by
  let c := initialCandidates (fun o => .ofModel model sort app hroot o) o
  have hanchor (p : Nat) (hp : p ≠ 0) (hlt : p < app.views.length) :
      ∃ attr, c.anchorAttribute p = some attr ∧ anchorsToRoot app attr = true ∧
        ∃ marginStart marginEnd, attr.SoundAt K app o p marginStart marginEnd := by
    obtain ⟨attr, hanchor, hattr, hallowed, hanchors⟩ := exists_anchorAttribute hp
      (ConstraintCache.exists_allowed_root model sort o hroot hsizes hp hlt)
    obtain ⟨view, hview, rfl⟩ := App.exists_view hlt
    rw [ConstraintCache.candidates_ofModel hroot hview hp] at hattr
    obtain ⟨gen, hgen, rfl⟩ := ConstraintCache.mem_viewCandidates.mp hattr
    have hproper := ConstraintCache.genAttributes_proper hgen
    obtain ⟨marginStart, marginEnd, hsound⟩ := exists_soundAt (K := K) hroot hinside hview hgen
      (not_sameSide_of_root hroot hproper (ConstraintCache.isValid_of_isAllowed hallowed) hanchors)
    -- the probability of a candidate plays no part in its meaning
    exact ⟨_, hanchor, hanchors, marginStart, marginEnd, hsound.start, hsound.end, hsound.value⟩
  choose attr hattr hanchors marginStart marginEnd hsound using hanchor
  refine ⟨fun p => if h : p ≠ 0 ∧ p < app.views.length then
    (marginStart p h.1 h.2, marginEnd p h.1 h.2) else (0, 0), fun _ => rfl, ?_, rfl, ?_⟩
  · intro p hp hlt
    refine ⟨attr p hp hlt, hattr p hp hlt, hanchors p hp hlt, ?_⟩
    rw [dif_pos ⟨hp, hlt⟩]
    exact hsound p hp hlt
  · intro p hp hlt
    obtain ⟨view, hview, rfl⟩ := App.exists_view hlt
    rw [initialCandidates, ofScorer, increaseRank,
      ConstraintCache.candidates_ofModel hroot hview hp]
    exact ConstraintCache.viewCandidates_distinct model sort app o view

/-- The first check of `GetSatConstraints` succeeds for an app without devices, whatever the
probability model ranks first: in one model each view has the root-anchored candidate that
`InitAnchor` found. -/
theorem singleScreen_satisfiable (hroot : app.Rooted) (hinside : app.InsideRoot)
    (hsizes : app.FreeSizes) (model : ProbModel Prob) (sort : StdSort Prob) (o : Orientation)
    (printed : Prob → K) (userInput robust : Bool) :
    let c := initialCandidates (fun o => .ofModel model sort app hroot o) o
    ∃ v : Assignment K, Models (multiDeviceAssertions printed [] userInput robust false c) v ∧
      ∀ p, p ≠ 0 → p < app.views.length → ∃ attr ∈ c.getAttributes p,
        c.anchorAttribute p = some attr ∧ anchorsToRoot app attr = true ∧
        v.select (attributeName (convertViews app o 0) attr) = true := by
  intro c
  obtain ⟨margins, hanchored⟩ : ∃ margins, RootAnchored K c margins :=
    initialCandidates_rootAnchored hroot hinside hsizes model sort
  refine ⟨anchoredModel printed c margins fun p _ => referencePositions app o p, ?_, ?_⟩
  · rw [models_multiDevice]
    refine ⟨anchoredModel_positions hanchored fun _ => rfl,
      anchoredModel_selection hroot hanchored fun _ => rfl, ?_⟩
    intro d device hdevice
    cases hdevice
  · intro p hp hlt
    obtain ⟨attr, rest, hanchor, hset, hanchors, _, hselected, _⟩ :=
      hanchored.select_iff printed (fun p _ => referencePositions app o p) hp hlt
    exact ⟨attr, hset ▸ List.mem_cons_self, hanchor, hanchors, hselected⟩

end

/-- Both views of an app have an anchor that the model selects. -/
theorem singleScreen_satisfiable_sample :
    let c := initialCandidates
      (fun o => .ofModel (fun _ _ => 0) (.insertion ℚ) sideBySide sideBySide_rooted o) .horizontal
    ∃ v : Assignment ℚ, Models (multiDeviceAssertions id [] false false false c) v ∧
      ∀ p ∈ [1, 2], ∃ attr, c.anchorAttribute p = some attr ∧
        v.select (attributeName (convertViews sideBySide .horizontal 0) attr) = true := by
  intro c
  obtain ⟨v, hv, hanchors⟩ := singleScreen_satisfiable (K := ℚ) sideBySide_rooted
    sideBySide_insideRoot sideBySide_freeSizes (fun _ _ => 0) (.insertion ℚ) .horizontal id false
    false
  refine ⟨v, hv, ?_⟩
  intro p hp
  have hlt : p ≠ 0 ∧ p < sideBySide.views.length := by
    rcases List.mem_pair.mp hp with rfl | rfl <;> decide
  obtain ⟨attr, _, hanchor, _, hselected⟩ := hanchors p hlt.1 hlt.2
  exact ⟨attr, hanchor, hselected⟩

end InferUI
