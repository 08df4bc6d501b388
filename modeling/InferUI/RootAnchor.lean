import InferUI.Candidates

/-!
# A candidate anchored to the root

Every view has a candidate whose only target is the root, and several when it lies inside the
root. Pruning keeps them, `InitAnchor` finds one, and the working set holds it whatever the rank,
under a name that no other candidate of the view has.
-/

namespace InferUI
variable {Prob : Type}

/-! ## Pruning -/

namespace ConstraintCache

theorem allow_of_allowed {allowed : Nat → Nat → Bool} {p q : Nat} (h : allowed p q = true)
    (src tgt : Nat) : allow allowed src tgt p q = true := by
  simp [allow, h]

theorem allow_root {allowed : Nat → Nat → Bool} {src : Nat} (hsrc : src ≠ 0) (tgt q : Nat) :
    allow allowed src tgt 0 q = allowed 0 q := by
  simp [allow, hsrc.symm]

theorem pruneStep_of_allowed {allowed : Nat → Nat → Bool} {p q : Nat} (h : allowed p q = true)
    (attr : Attribute Prob) : pruneStep allowed attr p q = true := by
  unfold pruneStep
  split
  · split
    · exact h
    · exact allow_of_allowed h _ _
  · cases attr.tgtSecondary with
    | none => exact h
    | some secondary =>
      dsimp only
      split
      · exact allow_of_allowed (allow_of_allowed h _ _) _ _
      · exact h

/-- The root never points anywhere. -/
theorem pruneStep_root {allowed : Nat → Nat → Bool} {attr : Attribute Prob} (hsrc : attr.src ≠ 0)
    (q : Nat) : pruneStep allowed attr 0 q = allowed 0 q := by
  unfold pruneStep
  split
  · split
    · rfl
    · rw [allow_root hsrc]
  · cases attr.tgtSecondary with
    | none => rfl
    | some secondary =>
      dsimp only
      split
      · rw [allow_root hsrc, allow_root hsrc]
      · rfl

/-- A candidate with only the root as target is never in the way of another one. -/
theorem pruneStep_anchor {allowed : Nat → Nat → Bool} {attr : Attribute Prob}
    (hfree : allowed 0 attr.src = false) (hroot : attr.tgtPrimary = 0)
    (hsecondary : attr.type.isRelationalAnchor = false → attr.tgtSecondary = some 0) :
    pruneStep allowed attr attr.src 0 = true := by
  unfold pruneStep
  cases hrel : attr.type.isRelationalAnchor with
  | true => simp [hroot, hfree, allow]
  | false => simp [hroot, hfree, allow, hsecondary hrel]

theorem foldl_pruneStep_of_allowed {allowed : Nat → Nat → Bool} {p q : Nat}
    (h : allowed p q = true) (attrs : List (Attribute Prob)) :
    attrs.foldl pruneStep allowed p q = true := by
  induction attrs generalizing allowed with
  | nil => exact h
  | cons attr attrs ih => exact ih (pruneStep_of_allowed h attr)

/-- In whatever order the candidates come, one that is tied to the root is never pruned. -/
theorem foldl_pruneStep_anchor {allowed : Nat → Nat → Bool} {attrs : List (Attribute Prob)}
    (hsrc : ∀ attr ∈ attrs, attr.src ≠ 0) (hfree : ∀ q, allowed 0 q = false)
    {attr : Attribute Prob} (hmem : attr ∈ attrs) (hroot : attr.tgtPrimary = 0)
    (hsecondary : attr.type.isRelationalAnchor = false → attr.tgtSecondary = some 0) :
    attrs.foldl pruneStep allowed attr.src 0 = true := by
  induction attrs generalizing allowed with
  | nil => cases hmem
  | cons first attrs ih =>
    rw [List.foldl_cons]
    obtain rfl | hmem := List.mem_cons.mp hmem
    · exact foldl_pruneStep_of_allowed (pruneStep_anchor (hfree attr.src) hroot hsecondary) attrs
    · apply ih (fun a ha => hsrc a (List.mem_cons_of_mem first ha)) _ hmem
      intro q
      rw [pruneStep_root (hsrc first List.mem_cons_self), hfree q]

section
variable [Zero Prob] [LinearOrder Prob] {app : App Prob} {model : ProbModel Prob}
variable {sort : StdSort Prob} {o : Orientation}

variable (model sort o) in
/-- The generator ties the start of a view to the start of the root. -/
theorem exists_start (hroot : app.Rooted) (hinside : app.InsideRoot) {view : View Prob}
    (hview : view ∈ app.views) (hpos : view.pos ≠ 0) :
    ∃ attr ∈ viewCandidates model sort app o view, attr.src = view.pos ∧ attr.tgtPrimary = 0 ∧
      attr.type.isRelationalAnchor = true ∧ attr.type.isOpposite = false := by
  obtain ⟨root, hmem, hzero⟩ := hroot.exists_root
  have hid : root.id ≠ view.id := by
    rw [Ne, ← hroot.pos_eq_iff hmem hview, hzero]
    exact hpos.symm
  have hget := App.mem_views_iff.mp hmem
  rw [hzero] at hget
  have hin := (hinside root hget view hview o).1
  obtain ⟨type, htype, hsides, hsame⟩ :
      ∃ type ∈ relationalTypes o, type.sides = (some .start, none) ∧ type.isOpposite = false := by
    cases o <;> decide
  obtain ⟨hrel, ho⟩ := mem_relationalTypes.mp htype
  have hmargin := relationalMargin_start toFloat hsides view root
  have hnonneg : (0 : ℚ) ≤ (view.startAt o - root.startAt o : Int) :=
    Int.cast_nonneg_iff.mpr (sub_nonneg.mpr hin)
  rw [ho] at hmargin
  have hc := relationalCandidate_eq_some.mpr
    ⟨by rw [hsame, Bool.and_false], _, hmargin, toFloat_nonneg_iff.mpr hnonneg, rfl⟩
  have hgen := mem_genAttributes.mpr (Or.inl ⟨root, hmem, hid, type, htype, hc⟩)
  exact ⟨_, mem_viewCandidates.mpr ⟨_, hgen, rfl⟩, rfl, hzero, hrel, hsame⟩

variable (model sort o) in
/-- Wherever a view is, the generator centers it in the root with its size fixed. -/
theorem exists_center (hroot : app.Rooted) {view : View Prob} (hview : view ∈ app.views)
    (hpos : view.pos ≠ 0) :
    ∃ attr ∈ viewCandidates model sort app o view, attr.src = view.pos ∧ attr.tgtPrimary = 0 ∧
      attr.tgtSecondary = some 0 ∧ attr.type.isRelationalAnchor = false ∧
      isValid app attr = true := by
  obtain ⟨root, hmem, hzero⟩ := hroot.exists_root
  have hid : root.id ≠ view.id := by
    rw [Ne, ← hroot.pos_eq_iff hmem hview, hzero]
    exact hpos.symm
  obtain ⟨type, htype, hsides, hsame, hl, ht⟩ : ∃ type ∈ centerTypes o,
      type.sides = (some .start, some .end) ∧ type.isSameSide = false ∧
        type ≠ .l2rxr2l ∧ type ≠ .t2bxb2t := by
    cases o <;> decide
  obtain ⟨hcenter, _⟩ := mem_centerTypes.mp htype
  have hkept : ¬ (root.id = root.id ∧ Side.start = Side.end ∧
      centeringMargin toFloat type .start .end view root root ≠ 0) := by
    rintro ⟨_, h, _⟩
    cases h
  have hc := (centeringCandidate_eq_some hsides).mpr ⟨hkept, rfl⟩
  have hgen := mem_genAttributes.mpr
    (Or.inr ⟨root, hmem, root, hmem, hid, hid, type, htype, Or.inl hc⟩)
  refine ⟨_, mem_viewCandidates.mpr ⟨_, hgen, rfl⟩, rfl, hzero, congrArg some hzero, hcenter, ?_⟩
  simp [isValid, Attribute.ofCenter, hcenter, hsame, hl, ht]

theorem mem_initializeBaseConstraints (hroot : app.Rooted) {attrs : List (Attribute Prob)} :
    attrs ∈ initializeBaseConstraints model sort app o ↔
      ∃ view ∈ app.views, view.pos ≠ 0 ∧ viewCandidates model sort app o view = attrs := by
  rw [initializeBaseConstraints, List.mem_map]
  simp only [List.mem_filter, and_assoc]
  apply exists_congr
  intro view
  apply and_congr_right
  intro hview
  rw [Bool.not_eq_true', Bool.eq_false_iff, Ne, hroot.isContentFrame_iff hview]

/-- The walk of `InitializePrune` goes through the candidates of every view but the root. -/
theorem mem_pruned (hroot : app.Rooted) {view : View Prob} (hview : view ∈ app.views)
    (hpos : view.pos ≠ 0) {attr : Attribute Prob} :
    let values := initializeBaseConstraints model sort app o
    attr ∈ MultiSortedIterator.elements gt values.flatten.length
        (MultiSortedIterator.begin gt values) ↔
      ∃ view ∈ app.views, view.pos ≠ 0 ∧ attr ∈ viewCandidates model sort app o view := by
  intro values
  have hvalues : viewCandidates model sort app o view ∈ values :=
    (mem_initializeBaseConstraints hroot).mpr ⟨view, hview, hpos, rfl⟩
  rw [MultiSortedIterator.mem_elements_begin gt (List.ne_nil_of_mem hvalues)]
  simp only [values, mem_initializeBaseConstraints hroot]
  constructor
  · rintro ⟨_, ⟨view, hview, hne, rfl⟩, hattr⟩
    exact ⟨view, hview, hne, hattr⟩
  · rintro ⟨view, hview, hne, hattr⟩
    exact ⟨_, ⟨view, hview, hne, rfl⟩, hattr⟩

/-- Every view may point to the root. -/
theorem allowed_root (hroot : app.Rooted) {view : View Prob} (hview : view ∈ app.views)
    (hpos : view.pos ≠ 0) :
    (ofModel model sort app hroot o).allowedTargets view.pos 0 = true := by
  obtain ⟨attr, hattr, hsrc, hprimary, hsecondary, _⟩ := exists_center model sort o hroot
    hview hpos
  rw [← hsrc]
  apply foldl_pruneStep_anchor _ (fun _ => rfl) _ hprimary fun _ => hsecondary
  · intro attr hattr
    obtain ⟨owner, _, hne, ha⟩ := (mem_pruned hroot hview hpos).mp hattr
    obtain ⟨gen, hgen, rfl⟩ := mem_viewCandidates.mp ha
    rw [(genAttributes_proper hgen).own]
    exact hne
  · exact (mem_pruned hroot hview hpos).mpr ⟨view, hview, hpos, hattr⟩

/-- Without sizes fixed by the user, a valid candidate whose targets are all the root is allowed. -/
theorem isAllowed_root (hroot : app.Rooted) (hsizes : app.FreeSizes) {attr : Attribute Prob}
    (hvalid : isValid app attr = true) {view : View Prob} (hview : view ∈ app.views)
    (hpos : view.pos ≠ 0) (hsrc : attr.src = view.pos) (hprimary : attr.tgtPrimary = 0)
    (hsecondary : attr.type.isRelationalAnchor = false → attr.tgtSecondary = some 0) :
    (ofModel model sort app hroot o).isAllowed attr = true := by
  have hallowed (cache : ConstraintCache app o) (h : cache.allowedTargets view.pos 0 = true) :
      cache.isAllowed attr = true := by
    rw [isAllowed, hvalid, hsrc, App.mem_views_iff.mp hview, Option.bind_some, hsizes view hview,
      hprimary]
    cases hrel : attr.type.isRelationalAnchor with
    | true => simpa using h
    | false => simpa [hsecondary hrel] using h
  exact hallowed _ (allowed_root hroot hview hpos)

variable (model sort o) in
/-- So every view but the root has a candidate that `InitAnchor` stops at. -/
theorem exists_allowed_root (hroot : app.Rooted) (hsizes : app.FreeSizes) {p : Nat} (hp : p ≠ 0)
    (hlt : p < app.views.length) :
    ∃ attr ∈ (ofModel model sort app hroot o).candidates p,
      (ofModel model sort app hroot o).isAllowed attr = true ∧
        CandidateConstraints.anchorsToRoot app attr = true := by
  obtain ⟨view, hview, rfl⟩ := App.exists_view hlt
  obtain ⟨attr, hattr, hsrc, hprimary, hsecondary, _, hvalid⟩ := exists_center model sort o hroot
    hview hp
  rw [candidates_ofModel hroot hview hp]
  refine ⟨attr, hattr, ?_, ?_⟩
  · exact isAllowed_root hroot hsizes hvalid hview hp hsrc hprimary fun _ => hsecondary
  · simp [CandidateConstraints.anchorsToRoot, hprimary, hsecondary, hroot.idOf_zero]

end

/-! ## Distinct candidates -/

/-- Two attributes do not stand for the same constraint of their view. -/
def Distinct (a b : Attribute Prob) : Prop :=
  ¬ a.Constrains b.type b.viewSize b.tgtPrimary b.tgtSecondary

theorem Distinct.symm {a b : Attribute Prob} (h : Distinct a b) : Distinct b a := by
  intro hsame
  exact h ⟨hsame.1.symm, hsame.2.1.symm, hsame.2.2.1.symm, hsame.2.2.2.symm⟩

/-- The candidates that come of one type each are distinct. -/
theorem filterMap_distinct {types : List ConstraintType} (htypes : types.Nodup)
    {f : ConstraintType → Option (Attribute Prob)} {size : ViewSize} {primary : Nat}
    {secondary : Option Nat}
    (hf : ∀ type attr, f type = some attr → attr.Constrains type size primary secondary) :
    (types.filterMap f).Pairwise Distinct := by
  rw [List.pairwise_filterMap]
  apply htypes.imp
  intro t t' hne a ha b hb hsame
  exact hne ((hf t a ha).1.symm.trans (hsame.1.trans (hf t' b hb).1))

/-- Both generators for pairs of targets: `f` makes the candidate of a pair and a type. -/
def pairCandidates (app : App Prob) (o : Orientation) (src : View Prob)
    (f : View Prob → View Prob → ConstraintType → Option (Attribute Prob)) :
    List (Attribute Prob) :=
  product app.views fun l r =>
    if l.id = src.id ∨ r.id = src.id then [] else (centerTypes o).filterMap (f l r)

section
variable {app : App Prob} {o : Orientation} {src : View Prob} {size : ViewSize}
variable {f : View Prob → View Prob → ConstraintType → Option (Attribute Prob)}
variable (hf : ∀ l r type attr, f l r type = some attr →
  attr.Constrains type size l.pos (some r.pos))
include hf

theorem pair_targets {l r : View Prob} {attr : Attribute Prob}
    (h : attr ∈ if l.id = src.id ∨ r.id = src.id then [] else (centerTypes o).filterMap (f l r)) :
    attr.viewSize = size ∧ attr.tgtPrimary = l.pos ∧ attr.tgtSecondary = some r.pos := by
  split at h
  · cases h
  · obtain ⟨type, _, ht⟩ := List.mem_filterMap.mp h
    exact (hf l r type attr ht).2

theorem pairCandidates_size {attr : Attribute Prob} (h : attr ∈ pairCandidates app o src f) :
    attr.viewSize = size ∧ attr.tgtSecondary ≠ none := by
  obtain ⟨l, _, r, _, h⟩ := mem_product.mp h
  obtain ⟨hsize, _, hsecondary⟩ := pair_targets hf h
  exact ⟨hsize, by simp [hsecondary]⟩

theorem pairCandidates_distinct : (pairCandidates app o src f).Pairwise Distinct := by
  have htypes : (centerTypes o).Nodup := by cases o <;> decide
  have hviews := List.pairwise_map.mp app.positions_nodup
  rw [pairCandidates, product, List.pairwise_flatMap]
  constructor
  · intro l _
    rw [List.pairwise_flatMap]
    constructor
    · intro r _
      split
      · exact List.Pairwise.nil
      · exact filterMap_distinct htypes (hf l r)
    · apply hviews.imp
      intro r r' hne a ha b hb hsame
      have h := hsame.2.2.2
      rw [(pair_targets hf ha).2.2, (pair_targets hf hb).2.2, Option.some.injEq] at h
      exact hne h
  · apply hviews.imp
    intro l l' hne a ha b hb hsame
    obtain ⟨r, _, ha⟩ := List.mem_flatMap.mp ha
    obtain ⟨r', _, hb⟩ := List.mem_flatMap.mp hb
    have h := hsame.2.2.1
    rw [(pair_targets hf ha).2.1, (pair_targets hf hb).2.1] at h
    exact hne h

end

section
variable [Zero Prob]

theorem one_target {src view : View Prob} {o : Orientation} {attr : Attribute Prob}
    (h : attr ∈ if view.id = src.id then []
      else (relationalTypes o).filterMap (relationalCandidate toFloat src view)) :
    attr.tgtPrimary = view.pos ∧ attr.tgtSecondary = none := by
  split at h
  · cases h
  · obtain ⟨type, _, ht⟩ := List.mem_filterMap.mp h
    exact (relationalCandidate_constrains ht).2.2

theorem genFixedSizeRelational_distinct (app : App Prob) (o : Orientation) (src : View Prob) :
    (genFixedSizeRelationalConstraints toFloat o src app.views).Pairwise Distinct := by
  have htypes : (relationalTypes o).Nodup := by cases o <;> decide
  rw [genFixedSizeRelationalConstraints, List.pairwise_flatMap]
  constructor
  · intro view _
    split
    · exact List.Pairwise.nil
    · exact filterMap_distinct htypes fun _ _ h => relationalCandidate_constrains h
  · apply (List.pairwise_map.mp app.positions_nodup).imp
    intro view view' hne a ha b hb hsame
    have h := hsame.2.2.1
    rw [(one_target ha).1, (one_target hb).1] at h
    exact hne h

/-- The generator emits a constraint of a view only once. -/
theorem genAttributes_distinct (app : App Prob) (o : Orientation) (src : View Prob) :
    (genAttributes o src app.views).Pairwise Distinct := by
  have hone (attr : Attribute Prob)
      (h : attr ∈ genFixedSizeRelationalConstraints toFloat o src app.views) :
      attr.tgtSecondary = none := by
    obtain ⟨view, _, h⟩ := List.mem_flatMap.mp h
    exact (one_target h).2
  have hcentering (l r : View Prob) (type : ConstraintType) (attr : Attribute Prob)
      (h : centeringCandidate toFloat src l r type = some attr) := centeringCandidate_constrains h
  have hmatch (l r : View Prob) (type : ConstraintType) (attr : Attribute Prob)
      (h : matchCandidate toFloat src l r type = some attr) := matchCandidate_constrains h
  rw [genAttributes, genAttributesWith, List.pairwise_append, List.pairwise_append]
  refine ⟨⟨genFixedSizeRelational_distinct app o src, pairCandidates_distinct hcentering, ?_⟩,
    pairCandidates_distinct hmatch, ?_⟩
  · intro a ha b hb hsame
    exact (pairCandidates_size hcentering hb).2 (hsame.2.2.2.symm.trans (hone a ha))
  · intro a ha b hb hsame
    obtain ⟨hsize, hsome⟩ := pairCandidates_size hmatch hb
    obtain ha | ha := List.mem_append.mp ha
    · exact hsome (hsame.2.2.2.symm.trans (hone a ha))
    · have := hsame.2.1
      rw [(pairCandidates_size hcentering ha).1, hsize] at this
      cases this

/-- Nor does a cache hold it twice. -/
theorem viewCandidates_distinct [LinearOrder Prob] (model : ProbModel Prob) (sort : StdSort Prob)
    (app : App Prob) (o : Orientation) (view : View Prob) :
    (viewCandidates model sort app o view).Pairwise Distinct := by
  rw [viewCandidates, (sort.perm _).pairwise_iff Distinct.symm, List.pairwise_map]
  exact genAttributes_distinct app o view

end
end ConstraintCache

/-! ## The working set -/

namespace CandidateConstraints
variable {app : App Prob} {o : Orientation}

theorem mem_collect {c : CandidateConstraints app o} {pos count rank : Nat}
    {attr : Attribute Prob} (h : attr ∈ c.collect pos count rank) :
    ∃ k, c.scorer.getAttr pos k = some attr ∧ some k ≠ c.anchors pos := by
  induction count generalizing rank with
  | zero => cases h
  | succ count ih =>
    rw [collect] at h
    cases hget : c.scorer.getAttr pos rank with
    | none =>
      rw [hget] at h
      cases h
    | some first =>
      rw [hget] at h
      dsimp only at h
      split at h
      · exact ih h
      · split at h
        · exact ih h
        · rename_i hanchor
          obtain rfl | h := List.mem_cons.mp h
          · exact ⟨rank, hget, hanchor⟩
          · exact ih h

/-- The anchor of a view is the first of its working set, and nothing else there stands for the
same constraint. -/
theorem workingSet_anchor {c : CandidateConstraints app o} {pos : Nat} {attr : Attribute Prob}
    (hdistinct : (c.scorer.candidates pos).Pairwise ConstraintCache.Distinct)
    (h : c.anchorAttribute pos = some attr) :
    ∃ rest, c.workingSet pos = attr :: rest ∧
      ∀ other ∈ rest, ConstraintCache.Distinct attr other := by
  refine ⟨c.collect pos (c.constraintsMaxRank pos) 0, by rw [workingSet_eq, h]; rfl, ?_⟩
  intro other hother
  obtain ⟨k, hk, hne⟩ := mem_collect hother
  obtain ⟨rank, hrank, hget⟩ := Option.bind_eq_some_iff.mp h
  obtain ⟨hklt, rfl⟩ := List.getElem?_eq_some_iff.mp hk
  obtain ⟨hranklt, rfl⟩ := List.getElem?_eq_some_iff.mp hget
  rw [List.pairwise_iff_getElem] at hdistinct
  rcases Nat.lt_trichotomy rank k with hlt | rfl | hlt
  · exact hdistinct rank k hranklt hklt hlt
  · exact absurd hrank.symm hne
  · exact (hdistinct k rank hklt hranklt hlt).symm

theorem isProhibitedConstraint_none (attr : Attribute Prob) :
    isProhibitedConstraint (fun _ => none) attr = false := rfl

/-- `InitAnchor` finds a rank when some candidate that is allowed and not prohibited has only the
root as target. -/
theorem exists_initAnchor {scorer : ConstraintCache app o}
    {prohibited : Nat → Option ConstraintData} {p : Nat} (hp : p ≠ 0)
    (h : ∃ attr ∈ scorer.candidates p, scorer.isAllowed attr = true ∧
      isProhibitedConstraint prohibited attr = false ∧ anchorsToRoot app attr = true) :
    ∃ rank attr, initAnchor scorer prohibited p = some rank ∧
      scorer.getAttr p rank = some attr ∧ scorer.isAllowed attr = true ∧
      isProhibitedConstraint prohibited attr = false ∧ anchorsToRoot app attr = true := by
  let suits (attr : Attribute Prob) : Bool := scorer.isAllowed attr &&
    !isProhibitedConstraint prohibited attr && anchorsToRoot app attr
  have hfound : ((scorer.candidates p).findIdx? suits).isSome = true := by
    obtain ⟨attr, hmem, hallowed, hfree, hanchors⟩ := h
    rw [List.findIdx?_isSome, List.any_eq_true]
    exact ⟨attr, hmem, by simp [suits, hallowed, hanchors, hfree]⟩
  obtain ⟨rank, hrank⟩ := Option.isSome_iff_exists.mp hfound
  obtain ⟨hlt, hsuits, _⟩ := List.findIdx?_eq_some_iff_getElem.mp hrank
  simp only [suits, Bool.and_eq_true, Bool.not_eq_true'] at hsuits
  exact ⟨rank, (scorer.candidates p)[rank], (if_neg hp).trans hrank,
    List.getElem?_eq_getElem hlt, hsuits.1.1, hsuits.1.2, hsuits.2⟩

theorem exists_anchorAttribute {scorer : ConstraintCache app o} {p : Nat} (hp : p ≠ 0)
    (h : ∃ attr ∈ scorer.candidates p, scorer.isAllowed attr = true ∧
      anchorsToRoot app attr = true) :
    ∃ attr, (ofScorer scorer).anchorAttribute p = some attr ∧ attr ∈ scorer.candidates p ∧
      scorer.isAllowed attr = true ∧ anchorsToRoot app attr = true := by
  obtain ⟨other, hmem, hallowed, hroot⟩ := h
  obtain ⟨rank, attr, hrank, hget, hfound, _, hanchors⟩ := exists_initAnchor hp
    ⟨other, hmem, hallowed, isProhibitedConstraint_none other, hroot⟩
  have hanchor : (ofScorer scorer).anchors p = some rank := hrank
  refine ⟨attr, ?_, List.mem_of_getElem? hget, hfound, hanchors⟩
  rw [anchorAttribute, hanchor]
  exact hget

/-- In the order of the cache no allowed candidate with only the root as target comes before the
anchor. -/
theorem anchor_le {scorer : ConstraintCache app o} {p rank k : Nat} {other : Attribute Prob}
    (hp : p ≠ 0) (h : (ofScorer scorer).anchors p = some rank)
    (hother : (scorer.candidates p)[k]? = some other) (hallowed : scorer.isAllowed other = true)
    (hanchors : anchorsToRoot app other = true) : rank ≤ k := by
  have hrank := (if_neg hp).symm.trans h
  obtain ⟨_, _, hbefore⟩ := List.findIdx?_eq_some_iff_getElem.mp hrank
  obtain ⟨_, rfl⟩ := List.getElem?_eq_some_iff.mp hother
  by_contra hlt
  have := hbefore k (by omega)
  simp [hallowed, hanchors, isProhibitedConstraint_none] at this

/-- The anchor is a most probable one of these candidates. -/
theorem le_anchorAttribute [LinearOrder Prob] {scorer : ConstraintCache app o} {p : Nat}
    {attr other : Attribute Prob} (hp : p ≠ 0)
    (hsorted : (scorer.candidates p).Pairwise fun a b => b.prob ≤ a.prob)
    (h : (ofScorer scorer).anchorAttribute p = some attr) (hother : other ∈ scorer.candidates p)
    (hallowed : scorer.isAllowed other = true) (hanchors : anchorsToRoot app other = true) :
    other.prob ≤ attr.prob := by
  obtain ⟨rank, hrank, hget⟩ := Option.bind_eq_some_iff.mp h
  obtain ⟨k, hk⟩ := List.mem_iff_getElem?.mp hother
  have hle := anchor_le hp hrank hk hallowed hanchors
  obtain ⟨hklt, rfl⟩ := List.getElem?_eq_some_iff.mp hk
  obtain ⟨hranklt, rfl⟩ := List.getElem?_eq_some_iff.mp hget
  rcases Nat.lt_or_eq_of_le hle with hlt | rfl
  · exact List.pairwise_iff_getElem.mp hsorted rank k hranklt hklt hlt
  · exact le_rfl

/-! ## The search for an anchor -/

def setProhibitedConstraintMap (c : CandidateConstraints app o)
    (prohibited : Nat → Option ConstraintData) : CandidateConstraints app o :=
  { c with prohibitedConstraints := prohibited }

def recomputeEntries (c : CandidateConstraints app o) : CandidateConstraints app o :=
  { c.resetAdding with anchors := initAnchor c.scorer c.prohibitedConstraints }

/-- A view has an anchor that may be used, tied to nothing but the root. -/
def HasAnchor (c : CandidateConstraints app o) (p : Nat) : Prop :=
  ∃ attr, c.anchorAttribute p = some attr ∧ c.scorer.isAllowed attr = true ∧
    isProhibitedConstraint c.prohibitedConstraints attr = false ∧ ∀ t ∈ attr.targets, t = 0

theorem hasAnchor_of_initAnchor (hroot : app.Rooted) {c : CandidateConstraints app o} {p : Nat}
    (hp : p ≠ 0) (hanchors : c.anchors = initAnchor c.scorer c.prohibitedConstraints)
    (h : ∃ attr ∈ c.scorer.candidates p, c.scorer.isAllowed attr = true ∧
      isProhibitedConstraint c.prohibitedConstraints attr = false ∧
      anchorsToRoot app attr = true) : c.HasAnchor p := by
  obtain ⟨rank, attr, hrank, hget, hallowed, hfree, hanchor⟩ := exists_initAnchor hp h
  have hattr : c.anchorAttribute p = some attr := by
    rw [anchorAttribute, hanchors, hrank]
    exact hget
  refine ⟨attr, hattr, hallowed, hfree, ?_⟩
  have hproper := c.scorer.proper_of_mem (List.mem_of_getElem? hget)
  rw [anchorsToRoot, Bool.and_eq_true, decide_eq_true_eq,
    hroot.idOf_eq_zero hproper.primary] at hanchor
  intro t ht
  unfold Attribute.targets at ht
  split at ht
  · rw [List.mem_singleton.mp ht]
    exact hanchor.1
  · rename_i hcenter
    obtain ⟨r, hr, hsecondary⟩ := hproper.center (by simpa using hcenter)
    have hzero : r = 0 := by
      simpa [ConstraintType.isCenterAnchor, hcenter, hsecondary, hroot.idOf_eq_zero hr]
        using hanchor.2
    rw [hsecondary, Option.toList_some, List.mem_pair] at ht
    rcases ht with rfl | rfl
    · exact hanchor.1
    · exact hzero

/-- What is prohibited for a view is one constraint, so of two different ones one may be used. -/
theorem one_not_prohibited (prohibited : Nat → Option ConstraintData) {a b : Attribute Prob}
    (hsrc : a.src = b.src) (htype : a.type ≠ b.type) :
    isProhibitedConstraint prohibited a = false ∨ isProhibitedConstraint prohibited b = false := by
  unfold isProhibitedConstraint
  rw [hsrc]
  cases prohibited b.src with
  | none => exact Or.inl rfl
  | some data =>
    by_cases h : data.type = a.type
    · right
      have hne : data.type ≠ b.type := fun hb => htype (h.symm.trans hb)
      simp [hne]
    · left
      simp [h]

section
variable [Zero Prob] [LinearOrder Prob]

/-- Whatever the model and the order of the candidates, every view but the root has an anchor. So
it is again when a constraint of each view is prohibited, if the views lie inside the root. -/
theorem initAnchor_never_fails (model : ProbModel Prob) (sort : StdSort Prob)
    (hroot : app.Rooted) (hsizes : app.FreeSizes) {p : Nat} (hp : p ≠ 0)
    (hlt : p < app.views.length) :
    (ofScorer (ConstraintCache.ofModel model sort app hroot o)).HasAnchor p ∧
    (app.InsideRoot → ∀ (c : CandidateConstraints app o)
      (prohibited : Nat → Option ConstraintData),
      c.scorer = ConstraintCache.ofModel model sort app hroot o →
        (c.setProhibitedConstraintMap prohibited).recomputeEntries.HasAnchor p) := by
  constructor
  · obtain ⟨attr, hmem, hallowed, hanchors⟩ :=
      ConstraintCache.exists_allowed_root model sort o hroot hsizes hp hlt
    exact hasAnchor_of_initAnchor hroot hp rfl
      ⟨attr, hmem, hallowed, isProhibitedConstraint_none attr, hanchors⟩
  · intro hinside c prohibited hscorer
    apply hasAnchor_of_initAnchor hroot hp rfl
    change ∃ attr ∈ c.scorer.candidates p, c.scorer.isAllowed attr = true ∧
      isProhibitedConstraint prohibited attr = false ∧ anchorsToRoot app attr = true
    rw [hscorer]
    obtain ⟨view, hview, rfl⟩ := App.exists_view hlt
    obtain ⟨start, hstart, hsrc, hprimary, hrel, hsame⟩ :=
      ConstraintCache.exists_start model sort o hroot hinside hview hp
    obtain ⟨center, hcenter, hsrc', hprimary', hsecondary', hcen, hvalid'⟩ :=
      ConstraintCache.exists_center model sort o hroot hview hp
    have hvalid : ConstraintCache.isValid app start = true := by
      simp [ConstraintCache.isValid, hrel, hsame]
    have htype : start.type ≠ center.type := by
      intro h
      rw [h, hcen] at hrel
      cases hrel
    have hstart_secondary (h : start.type.isRelationalAnchor = false) :
        start.tgtSecondary = some 0 := by
      rw [hrel] at h
      cases h
    rw [ConstraintCache.candidates_ofModel hroot hview hp]
    rcases one_not_prohibited prohibited (hsrc.trans hsrc'.symm) htype with hfree | hfree
    · refine ⟨start, hstart, ?_, hfree, ?_⟩
      · exact ConstraintCache.isAllowed_root hroot hsizes hvalid hview hp hsrc hprimary
          hstart_secondary
      · simp [anchorsToRoot, hprimary, hroot.idOf_zero, ConstraintType.isCenterAnchor, hrel]
    · refine ⟨center, hcenter, ?_, hfree, ?_⟩
      · exact ConstraintCache.isAllowed_root hroot hsizes hvalid' hview hp hsrc' hprimary'
          fun _ => hsecondary'
      · simp [anchorsToRoot, hprimary', hsecondary', hroot.idOf_zero]

theorem initAnchor_never_fails_sample :
    (ofScorer (sampleCache .horizontal)).HasAnchor 1 ∧
      ((ofScorer (sampleCache .horizontal)).setProhibitedConstraintMap fun _ =>
        some ⟨.l2l, .fixed, .horizontal, 1, 0, -1⟩).recomputeEntries.HasAnchor 1 := by
  obtain ⟨hfresh, hprohibited⟩ := initAnchor_never_fails (o := .horizontal) (fun _ _ => 0)
    (.insertion ℚ) sampleApp_rooted sampleApp_freeSizes (by decide : 1 ≠ 0) (by decide)
  exact ⟨hfresh, hprohibited sampleApp_insideRoot _ _ rfl⟩

end

end CandidateConstraints
end InferUI
