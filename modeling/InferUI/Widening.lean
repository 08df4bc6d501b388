import InferUI.GivenLayout
import InferUI.MultiDeviceRounds

/-!
# Wider working sets

A round only adds candidates, and each of them is a constraint that the full enumeration lists.
Once nothing else is selected, a model of a working set is one of every wider set and of the
enumeration, with the same positions, margins and choices.
-/

namespace InferUI
open Store CandidateConstraints GivenLayout
variable {Prob K : Type}

/-! ## Selecting less -/

section
variable {α : Type} [DecidableEq α]

/-- A choice out of `xs` stays the only one in a longer list when the rest is no longer chosen. -/
theorem exactlyOne_narrow {p : α → Bool} {xs ys : List α} (hsub : xs ⊆ ys) (hnodup : ys.Nodup)
    (h : exactlyOne p xs = true) :
    exactlyOne (fun x => p x && decide (x ∈ xs)) ys = true := by
  obtain ⟨x, hx, hpx, honly⟩ := exactlyOne_member h
  have hcount : ys.countP (fun y => p y && decide (y ∈ xs)) = ys.count x := by
    apply List.countP_congr
    intro y _
    rw [Bool.and_eq_true, decide_eq_true_eq, beq_iff_eq]
    constructor
    · rintro ⟨hpy, hy⟩
      exact honly y hy hpy
    · rintro rfl
      exact ⟨hpx, hx⟩
  rw [exactlyOne, decide_eq_true_eq, hcount]
  exact List.count_eq_one_of_mem hnodup (hsub hx)

end

/-- The assignment that selects only what is listed for a view. -/
def Assignment.narrow (v : Assignment K) (listed : Nat → List ConstraintData) : Assignment K :=
  { v with select := fun name => v.select name && decide (name ∈ listed name.src) }

theorem sameLayout_narrow (v : Assignment K) (listed : Nat → List ConstraintData) :
    SameLayout (v.narrow listed) v :=
  ⟨rfl, rfl, rfl, rfl, rfl, rfl⟩

theorem SameLayout.formula [Field K] [LinearOrder K] [FloorRing K] {v w : Assignment K}
    (h : SameLayout v w) (type : ConstraintType) (size : ViewSize) (src l : Z3View)
    (r : Option Z3View) :
    InferUI.formula type size src l r v = InferUI.formula type size src l r w := by
  obtain ⟨hstart, hend, hmarginStart, hmarginEnd, _, hbias⟩ := h
  cases v
  cases w
  subst hstart hend hmarginStart hmarginEnd hbias
  cases type <;> cases size <;> rfl

theorem SameLayout.anchor_eq {v w : Assignment K} (h : SameLayout v w) (view : Z3View) :
    view.anchor v = view.anchor w :=
  congrFun h.anchor _

theorem SameLayout.anchorValue {v w : Assignment K} (h : SameLayout v w) (views : List Z3View)
    (attr : Attribute Prob) : anchorValue views attr v = InferUI.anchorValue views attr w := by
  simp only [InferUI.anchorValue, h.anchor_eq]

section
variable {app : App Prob} {o : Orientation}

/-- Distinct attributes of a view have distinct names. -/
theorem names_nodup {p : Nat} (hlt : p < app.views.length) {attrs : List (Attribute Prob)}
    (hproper : ∀ attr ∈ attrs, attr.Proper app.views.length o p)
    (hdistinct : attrs.Pairwise ConstraintCache.Distinct) : (names app o attrs).Nodup := by
  rw [names, List.Nodup, List.pairwise_map]
  apply hdistinct.imp_of_mem
  intro a b ha hb hne hname
  rw [attributeName_eq rfl (hproper a ha) hlt, attributeName_eq rfl (hproper b hb) hlt,
    ConstraintData.mk.injEq] at hname
  obtain ⟨htype, hsize, _, _, hprimary, hsecondary⟩ := hname
  refine hne ⟨htype, hsize, hprimary, ?_⟩
  revert hsecondary
  cases a.tgtSecondary <;> cases b.tgtSecondary <;> simp

/-- What is still selected is listed. -/
theorem narrow_select {v : Assignment K} {listed : Nat → List ConstraintData} {p : Nat}
    (hlt : p < app.views.length) {attr : Attribute Prob}
    (hproper : attr.Proper app.views.length o p) :
    (v.narrow listed).select (attributeName (convertViews app o 0) attr) = true ↔
      v.select (attributeName (convertViews app o 0) attr) = true ∧
        attributeName (convertViews app o 0) attr ∈ listed p := by
  have hsrc : (attributeName (convertViews app o 0) attr).src = p := by
    rw [attributeName_eq rfl hproper hlt]
  rw [Assignment.narrow, Bool.and_eq_true, decide_eq_true_eq, hsrc]

end

/-! ## A model of a wider working set -/

section
variable [Field K] [LinearOrder K] [FloorRing K] {app : App Prob} {o : Orientation}
variable {printed : Prob → K} {deviceApps : List (App Prob)} {userInput robust : Bool}

/-- `d` hands out what `c` does and more, and nothing twice. -/
structure Covers (c d : CandidateConstraints app o) : Prop where
  subset : ∀ p, c.workingSet p ⊆ d.workingSet p
  distinct : ∀ p, p ≠ 0 → p < app.views.length →
    (d.workingSet p).Pairwise ConstraintCache.Distinct

/-- `v` with only what `c` hands out selected. -/
def Assignment.within (v : Assignment K) (c : CandidateConstraints app o) : Assignment K :=
  v.narrow fun p => names app o (c.workingSet p)

theorem workingSet_proper {c : CandidateConstraints app o} {p : Nat} {attr : Attribute Prob}
    (h : attr ∈ c.workingSet p) : attr.Proper app.views.length o p :=
  getAttributes_proper (c := c.resetAdding) h

namespace Covers
variable {c d : CandidateConstraints app o} {v : Assignment K}

omit [Field K] [LinearOrder K] [FloorRing K] in
/-- Among the candidates of `d`, those that `v` selects in `c` stay selected. -/
theorem select_iff (h : Covers c d) {p : Nat} (hp : p ≠ 0) (hlt : p < app.views.length)
    {attr : Attribute Prob} (hattr : attr ∈ d.workingSet p) :
    (v.within c).select (attributeName (convertViews app o 0) attr) = true ↔
      v.select (attributeName (convertViews app o 0) attr) = true ∧ attr ∈ c.workingSet p := by
  rw [Assignment.within, narrow_select hlt (workingSet_proper hattr)]
  apply and_congr_right
  intro _
  rw [names]
  constructor
  · intro hname
    obtain ⟨other, hother, hsame⟩ := List.mem_map.mp hname
    have hnodup := names_nodup hlt (fun _ => workingSet_proper) (h.distinct p hp hlt)
    rwa [← List.inj_on_of_nodup_map hnodup (h.subset p hother) hattr hsame]
  · exact List.mem_map_of_mem

theorem shared (h : Covers c d)
    (hviews : ∀ device ∈ deviceApps, device.views.length = app.views.length)
    (hv : MultiDevice.Shared printed deviceApps userInput robust c v) :
    MultiDevice.Shared printed deviceApps userInput robust d (v.within c) := by
  have hsame : SameLayout (v.within c) v := sameLayout_narrow v _
  have hvalue (views : List Z3View) (attr : Attribute Prob) :
      attributeValue views attr (v.within c) = attributeValue views attr v := hsame.formula ..
  obtain ⟨hframe, ⟨hsyn, hgen⟩, hone⟩ := hv
  refine ⟨hsame.frameAssertions.mpr hframe, ⟨?_, ?_⟩, ?_⟩
  · intro p hp hlt attr hattr
    rw [models_synAttribute, hsame.anchorValue, hsame.anchor_eq, hvalue, h.select_iff hp hlt hattr]
    refine ⟨fun hsel => ?_, fun hfalse => absurd hfalse (by decide)⟩
    exact (models_synAttribute.mp (hsyn p hp hlt attr hsel.2)).1 hsel.1
  · intro device hdevice p hp hlt attr hattr
    have hn : device.1.views.length = app.views.length :=
      hviews device.1 (List.fst_mem_of_mem_zipIdx hdevice)
    have hproper := workingSet_proper hattr
    rw [hn] at hlt
    rw [genAttribute, implies_eq_true, attributeName_device hn hproper hlt, hvalue,
      h.select_iff hp hlt hattr, hsame.start_eq, hsame.end_eq]
    rintro ⟨hsel, hmem⟩
    have := hgen device hdevice p hp (hn ▸ hlt) attr hmem
    rw [genAttribute, implies_eq_true, attributeName_device hn hproper hlt] at this
    exact this hsel
  · intro p hp
    obtain ⟨hp', hlt⟩ := mem_nonRootPositions.mp hp
    have hnodup := names_nodup hlt (fun _ => workingSet_proper) (h.distinct p hp' hlt)
    have hnarrow := exactlyOne_narrow (List.map_subset _ (h.subset p)) hnodup (hone p hp)
    rw [exactlyOne, decide_eq_true_eq] at hnarrow ⊢
    rw [← hnarrow]
    apply List.countP_congr
    intro name hname
    obtain ⟨attr, hattr, rfl⟩ := List.mem_map.mp hname
    rw [Assignment.within, narrow_select hlt (workingSet_proper hattr), Bool.and_eq_true,
      decide_eq_true_eq]
    rfl

end Covers

/-! ## The working sets of a run -/

theorem collect_sublist (c : CandidateConstraints app o) (pos count rank : Nat) :
    (c.collect pos count rank).Sublist ((c.scorer.candidates pos).drop rank) := by
  induction count generalizing rank with
  | zero => exact List.nil_sublist _
  | succ count ih =>
    rw [collect]
    cases hget : c.scorer.getAttr pos rank with
    | none => exact List.nil_sublist _
    | some attr =>
      obtain ⟨hlt, hattr⟩ := List.getElem?_eq_some_iff.mp hget
      have hdrop : (c.scorer.candidates pos).drop rank =
          attr :: (c.scorer.candidates pos).drop (rank + 1) := by
        rw [List.drop_eq_getElem_cons hlt, hattr]
      have hrest : (c.collect pos count (rank + 1)).Sublist
          ((c.scorer.candidates pos).drop rank) := by
        rw [hdrop]
        exact (ih (rank + 1)).cons attr
      dsimp only
      split
      · exact hrest
      · split
        · exact hrest
        · rw [hdrop]
          exact (ih (rank + 1)).cons_cons attr

theorem workingSet_distinct {c : CandidateConstraints app o} {p : Nat}
    (h : (c.scorer.candidates p).Pairwise ConstraintCache.Distinct) :
    (c.workingSet p).Pairwise ConstraintCache.Distinct := by
  have hcollect : (c.collect p (c.constraintsMaxRank p) 0).Pairwise ConstraintCache.Distinct :=
    h.sublist (collect_sublist c p _ 0)
  cases hanchor : c.anchorAttribute p with
  | none =>
    rw [workingSet_eq, hanchor]
    exact hcollect
  | some attr =>
    obtain ⟨rest, hset, hothers⟩ := workingSet_anchor h hanchor
    have hrest : rest = c.collect p (c.constraintsMaxRank p) 0 := by
      rw [workingSet_eq, hanchor] at hset
      exact (List.cons.inj hset).2.symm
    rw [hset, List.pairwise_cons]
    exact ⟨hothers, hrest ▸ hcollect⟩

theorem allowed_of_mem_collect {c : CandidateConstraints app o} {pos count rank : Nat}
    {attr : Attribute Prob} (h : attr ∈ c.collect pos count rank) :
    c.scorer.isAllowed attr = true := by
  induction count generalizing rank with
  | zero => cases h
  | succ count ih =>
    rw [collect] at h
    split at h
    · cases h
    · split at h
      · exact ih h
      · rename_i hallowed
        split at h
        · exact ih h
        · obtain rfl | h := List.mem_cons.mp h
          · simp only [Bool.or_eq_true, Bool.not_eq_true', not_or, Bool.not_eq_false] at hallowed
            exact hallowed.1
          · exact ih h

/-- The candidates come from `scorer`, in which each view has an anchor of its own. -/
structure Origin (scorer : ConstraintCache app o) (c : CandidateConstraints app o) : Prop where
  same : c.scorer = scorer
  anchors : c.anchors = (ofScorer scorer).anchors

theorem Origin.allowed {scorer : ConstraintCache app o} {c : CandidateConstraints app o}
    (h : Origin scorer c) {p : Nat} (hp : p ≠ 0) {attr : Attribute Prob}
    (hattr : attr ∈ c.workingSet p) :
    attr ∈ scorer.candidates p ∧ scorer.isAllowed attr = true := by
  refine ⟨h.same ▸ mem_getAttributes (c := c.resetAdding) hattr, ?_⟩
  rw [workingSet_eq, List.mem_append, Option.mem_toList] at hattr
  obtain hanchor | hcollect := hattr
  · obtain ⟨rank, hrank, hget⟩ := Option.bind_eq_some_iff.mp hanchor
    rw [h.anchors] at hrank
    obtain ⟨hlt, hfound, _⟩ := List.findIdx?_eq_some_iff_getElem.mp ((if_neg hp).symm.trans hrank)
    rw [h.same] at hget
    obtain ⟨_, rfl⟩ := List.getElem?_eq_some_iff.mp hget
    simp only [Bool.and_eq_true] at hfound
    exact hfound.1.1
  · exact h.same ▸ allowed_of_mem_collect hcollect

namespace MultiDevice

theorem run_origin (printed : Prob → K) (deviceApps : List (App Prob)) (userInput robust : Bool)
    (scorer : ConstraintCache app o) (cores : List (List Nat)) :
    Origin scorer
      (run printed deviceApps userInput robust scorer cores).encoder.candidates := by
  induction cores using List.reverseRecOn with
  | nil => exact ⟨rfl, rfl⟩
  | append_singleton cores core ih =>
    obtain ⟨history, h⟩ := run_invariant printed deviceApps userInput robust scorer cores
    have hwidens := (Oracle.widen_widens h.complete core).candidates
    rw [run, List.foldl_append]
    exact ⟨hwidens.scorer.trans ih.same, hwidens.anchors.trans ih.anchors⟩

/-- Later rounds keep the candidates of the earlier ones. -/
theorem run_subset (printed : Prob → K) (deviceApps : List (App Prob)) (userInput robust : Bool)
    (scorer : ConstraintCache app o) (cores more : List (List Nat)) (p : Nat) :
    (run printed deviceApps userInput robust scorer cores).encoder.candidates.workingSet p ⊆
      (run printed deviceApps userInput robust scorer
        (cores ++ more)).encoder.candidates.workingSet p := by
  induction more using List.reverseRecOn with
  | nil =>
    rw [List.append_nil]
    exact List.Subset.refl _
  | append_singleton more core ih =>
    obtain ⟨history, h⟩ := run_invariant printed deviceApps userInput robust scorer
      (cores ++ more)
    have hset (st : MultiDevice app o K) (hst : st.encoder.Complete) :
        (st.round printed deviceApps core).encoder.candidates.workingSet p =
          st.encoder.candidates.workingSet p ++
            (Oracle.widen st.encoder core).candidates.getAttributes p :=
      congrFun (round_workingSet hst core) p
    have hrun : run printed deviceApps userInput robust scorer (cores ++ (more ++ [core])) =
        (run printed deviceApps userInput robust scorer (cores ++ more)).round printed deviceApps
          core := by
      rw [← List.append_assoc, run, List.foldl_append]
      rfl
    rw [hrun, hset _ h.complete]
    exact fun attr hattr => List.mem_append_left _ (ih hattr)

end MultiDevice

end

/-! ## Candidates of the generator -/

theorem pos_ne_of_id_ne {app : App Prob} {a b : View Prob} (ha : a ∈ app.views) (hb : b ∈ app.views)
    (h : a.id ≠ b.id) : a.pos ≠ b.pos := by
  intro hpos
  have hget := App.mem_views_iff.mp ha
  rw [hpos, App.mem_views_iff.mp hb, Option.some.injEq] at hget
  exact h (congrArg View.id hget.symm)

section
variable [Zero Prob] [LinearOrder Prob]
variable {app : App Prob} {o : Orientation} {model : ProbModel Prob} {sort : StdSort Prob}

theorem ofModel_distinct (hroot : app.Rooted) {p : Nat} (hp : p ≠ 0)
    (hlt : p < app.views.length) :
    ((ConstraintCache.ofModel model sort app hroot o).candidates p).Pairwise
      ConstraintCache.Distinct := by
  obtain ⟨view, hview, rfl⟩ := App.exists_view hlt
  rw [ConstraintCache.candidates_ofModel hroot hview hp]
  exact ConstraintCache.viewCandidates_distinct model sort app o view

omit [LinearOrder Prob] in
/-- What is generated for a view has a size of its kind and does not point to the view. -/
theorem genAttributes_targets {view : View Prob} (hview : view ∈ app.views)
    {attr : Attribute Prob} (h : attr ∈ genAttributes o view app.views) :
    (attr.viewSize = .fixed ∨ attr.viewSize = .matchConstraint) ∧ attr.tgtPrimary ≠ view.pos ∧
      ∀ r ∈ attr.tgtSecondary, r ≠ view.pos := by
  obtain ⟨tgt, htgt, hne, type, _, hc⟩ | ⟨l, hl, r, hr, hlne, hrne, type, _, hc⟩ :=
    mem_genAttributes.mp h
  · obtain ⟨_, hsize, hprimary, hsecondary⟩ := relationalCandidate_constrains hc
    rw [hsize, hprimary, hsecondary]
    exact ⟨Or.inl rfl, pos_ne_of_id_ne htgt hview hne, fun r hr => nomatch hr⟩
  · have hsides : (attr.viewSize = .fixed ∨ attr.viewSize = .matchConstraint) ∧
        attr.tgtPrimary = l.pos ∧ attr.tgtSecondary = some r.pos := by
      obtain hc | hc := hc
      · obtain ⟨_, hsize, htargets⟩ := centeringCandidate_constrains hc
        exact ⟨Or.inl hsize, htargets⟩
      · obtain ⟨_, hsize, htargets⟩ := matchCandidate_constrains hc
        exact ⟨Or.inr hsize, htargets⟩
    obtain ⟨hsize, hprimary, hsecondary⟩ := hsides
    rw [hprimary, hsecondary]
    refine ⟨hsize, pos_ne_of_id_ne hl hview hlne, ?_⟩
    rintro _ ⟨⟩
    exact pos_ne_of_id_ne hr hview hrne

omit [Zero Prob] [LinearOrder Prob] in
/-- The cache and the enumeration leave out the same constraints. -/
theorem validConstraint_eq_isValid (hroot : app.Rooted) {attr : Attribute Prob} {p : Nat}
    (hproper : attr.Proper app.views.length o p) :
    validConstraint attr.type (findView (convertViews app o 0) attr.tgtPrimary)
        (attr.tgtSecondary.map (findView (convertViews app o 0))) =
      ConstraintCache.isValid app attr := by
  unfold validConstraint ConstraintCache.isValid
  rw [findView_pos hproper.primary]
  cases hrel : attr.type.isRelationalAnchor with
  | true => rfl
  | false =>
    obtain ⟨r, hr, hsome⟩ := hproper.center hrel
    simp only [hsome, Option.map_some, findView_pos hr, hroot.idOf_inj hproper.primary hr]

/-- A candidate that the cache allows is one that the enumeration lists. -/
theorem valid_of_allowed (hroot : app.Rooted) {p : Nat} (hp : p ≠ 0) (hlt : p < app.views.length)
    {attr : Attribute Prob}
    (hattr : attr ∈ (ConstraintCache.ofModel model sort app hroot o).candidates p)
    (hallowed : (ConstraintCache.ofModel model sort app hroot o).isAllowed attr = true) :
    Valid attr app.views.length o (convertViews app o 0) p := by
  have hproper : attr.Proper app.views.length o p :=
    (ConstraintCache.ofModel model sort app hroot o).proper_of_mem hattr
  have hvalid := ConstraintCache.isValid_of_isAllowed hallowed
  obtain ⟨view, hview, rfl⟩ := App.exists_view hlt
  rw [ConstraintCache.candidates_ofModel hroot hview hp] at hattr
  obtain ⟨gen, hgen, rfl⟩ := ConstraintCache.mem_viewCandidates.mp hattr
  obtain ⟨hsize, hprimary, hsecondary⟩ := genAttributes_targets hview hgen
  refine ⟨hproper.orientation, ?_, fun hrel => (hproper.relational hrel).2, fun _ => hsize,
    ⟨hproper.primary, hprimary⟩, ?_⟩
  · rw [validConstraint_eq_isValid hroot hproper]
    exact hvalid
  · intro hcenter r hr
    obtain ⟨r', hlt', hsome⟩ := hproper.center hcenter
    rw [Option.mem_def, hsome, Option.some.injEq] at hr
    subst hr
    exact ⟨hlt', hsecondary _ hsome⟩

end

/-! ## The entries of one name -/

section
variable [Field K] [LinearOrder K] [FloorRing K] {app : App Prob} {o : Orientation}

omit [Field K] [LinearOrder K] [FloorRing K] in
theorem addFixedSizeRelationalConstraint_filter (o : Orientation) (src : Z3View)
    (views : List Z3View) (filter : ConstraintData → Z3View → Bool) :
    addFixedSizeRelationalConstraint (K := K) o src views filter =
      (addFixedSizeRelationalConstraint o src views fun _ _ => true).filter fun entry =>
        filter (entry.name src) src := by
  rw [addFixedSizeRelationalConstraint, addFixedSizeRelationalConstraint, List.filter_flatMap]
  congr 1
  funext tgt
  split
  · rfl
  · rw [List.filter_filterMap]
    congr 1
    funext constraint
    dsimp only [Enumerated.name]
    split
    · rfl
    · simp only [Bool.not_true, Bool.false_eq_true, ↓reduceIte, Option.filter_some]
      cases filter (src.constraintName (constraint.getType o) .fixed tgt none) src <;> rfl

omit [Field K] [LinearOrder K] [FloorRing K] in
theorem addCenteringConstraint_filter (constraints : List (Constraint K)) (size : ViewSize)
    (o : Orientation) (src : Z3View) (views : List Z3View)
    (filter : ConstraintData → Z3View → Bool) :
    addCenteringConstraint constraints size o src views filter =
      (addCenteringConstraint constraints size o src views fun _ _ => true).filter fun entry =>
        filter (entry.name src) src := by
  rw [addCenteringConstraint, addCenteringConstraint, product, product, List.filter_flatMap]
  congr 1
  funext l
  rw [List.filter_flatMap]
  congr 1
  funext r
  split
  · rfl
  · rw [List.filter_filterMap]
    congr 1
    funext constraint
    dsimp only [Enumerated.name]
    split
    · rfl
    · split
      · rfl
      · simp only [Bool.not_true, Bool.false_eq_true, ↓reduceIte, Option.filter_some]
        cases filter (src.constraintName (constraint.getType o) size l (some r)) src <;> rfl

/-- A filter that selects one constraint of a view leaves its entry of the enumeration. -/
theorem enumerated_filter {p : Nat} (hp : p ≠ 0) (hlt : p < app.views.length)
    {attr : Attribute Prob} (hvalid : Valid attr app.views.length o (convertViews app o 0) p)
    {filter : ConstraintData → Z3View → Bool}
    (hselects : Selects filter (convertViews app o 0) (findView (convertViews app o 0) p) attr) :
    (enumerated (K := K) o (findView (convertViews app o 0) p) (convertViews app o 0)).filter
        (fun entry => filter (entry.name (findView (convertViews app o 0) p))
          (findView (convertViews app o 0) p)) =
      [ownConstraint (convertViews app o 0) (findView (convertViews app o 0) p) attr] := by
  rw [← constraintsOf_enumerate (K := K) hp hlt hvalid hselects, enumerateConstraints,
    constraintsOf, List.filter_append, List.filter_append, List.map_append, List.map_append,
    enumerated, List.filter_append, List.filter_append,
    ← addFixedSizeRelationalConstraint_filter, addFixedSizeCenteringConstraint,
    addMatchConstraintCenteringConstraint, ← addCenteringConstraint_filter,
    ← addCenteringConstraint_filter]
  congr 1
  · congr 1
    · exact (constraintsOf_forEach
        (fun src => addFixedSizeRelationalConstraint o src _ filter) hp hlt).symm
    · exact (constraintsOf_forEach
        (fun src => addFixedSizeCenteringConstraint o src _ filter) hp hlt).symm
  · exact (constraintsOf_forEach
      (fun src => addMatchConstraintCenteringConstraint o src _ filter) hp hlt).symm

/-- The name of a candidate selects its own entry. -/
theorem selects_name {p : Nat} (hlt : p < app.views.length) {attr : Attribute Prob}
    (hproper : attr.Proper app.views.length o p) :
    Selects (fun name _ => decide (name = attributeName (convertViews app o 0) attr))
      (convertViews app o 0) (findView (convertViews app o 0) p) attr := by
  intro type size l r hl hr
  have hsecondary : r.elim (-1) (fun view => (view.pos : Int)) =
      attr.tgtSecondary.elim (-1) (fun r => (r : Int)) ↔
      r = attr.tgtSecondary.map (findView (convertViews app o 0)) := by
    cases hsome : attr.tgtSecondary with
    | none => cases r <;> simp
    | some q =>
      have hq : q < app.views.length := by
        cases hrel : attr.type.isRelationalAnchor with
        | true => exact absurd (hsome.symm.trans (hproper.relational hrel).1) (by simp)
        | false =>
          obtain ⟨r', hr', hsome'⟩ := hproper.center hrel
          exact Option.some.inj (hsome.symm.trans hsome') ▸ hr'
      cases r with
      | none => simp
      | some view =>
        simp only [Option.elim_some, Option.map_some, Option.some.injEq, Nat.cast_inj]
        constructor
        · exact eq_findView (hr view rfl)
        · rintro rfl
          exact findView_pos hq
  have hviews : secondaryView (convertViews app o 0) attr =
      attr.tgtSecondary.map (findView (convertViews app o 0)) := by
    rw [secondaryView]
    split
    · rename_i hrel
      rw [(hproper.relational hrel).1, Option.map_none]
    · rfl
  have hl' : l.pos = attr.tgtPrimary ↔ l = findView (convertViews app o 0) attr.tgtPrimary := by
    constructor
    · exact eq_findView hl
    · rintro rfl
      exact findView_pos hproper.primary
  rw [decide_eq_true_eq, attributeName_eq rfl hproper hlt, Z3View.constraintName,
    ConstraintData.mk.injEq, hsecondary, hl', hviews, findView_pos hlt,
    findView_eq (List.getElem?_eq_getElem hlt)]
  simp

/-- What a view is constrained by, as an entry and as an attribute. -/
theorem ownConstraint_value {src : Z3View} {views : List Z3View} {n p : Nat}
    {attr : Attribute Prob} (hproper : attr.Proper n o p) (hsrc : findView views p = src) :
    (ownConstraint (K := K) views src attr).value = attributeValue views attr ∧
      ∀ v : Assignment K, (ownConstraint (K := K) views src attr).l.anchor v +
        ((ownConstraint (K := K) views src attr).r.elim 0 fun r => r.anchor v) + 1 =
          anchorValue views attr v := by
  subst hsrc
  cases hrel : attr.type.isRelationalAnchor with
  | true =>
    have hr : secondaryView views attr = none := if_pos hrel
    simp only [ownConstraint, hr, attributeValue, anchorValue, hrel, hproper.own,
      (hproper.relational hrel).1, Option.map_none, Option.elim_none, ↓reduceIte, add_zero,
      and_self, implies_true]
  | false =>
    obtain ⟨r, _, hsome⟩ := hproper.center hrel
    have hr : secondaryView views attr = some (findView views r) := by
      rw [secondaryView, hrel, if_neg (by decide), hsome, Option.map_some]
    simp only [ownConstraint, hr, attributeValue, anchorValue, hrel, hproper.own, hsome,
      Option.map_some, Option.elim_some, Bool.false_eq_true, ↓reduceIte, and_self, implies_true]

end

/-! ## Models of a working set in the enumeration -/

section
variable [Field K] [LinearOrder K] [FloorRing K] {app : App Prob} {o : Orientation}
variable {printed : Prob → K} {deviceApps : List (App Prob)} {userInput robust : Bool}
variable {c : CandidateConstraints app o} {v : Assignment K} {p : Nat}

/-- What the working sets hold can be enumerated. -/
def Listed (c : CandidateConstraints app o) : Prop :=
  ∀ p, p ≠ 0 → p < app.views.length → ∀ attr ∈ c.workingSet p,
    Valid attr app.views.length o (convertViews app o 0) p

/-- A listed entry that is still selected is that of a selected candidate. -/
theorem Listed.exists_candidate (h : Listed c) (hp : p ≠ 0) (hlt : p < app.views.length)
    {entry : Enumerated K}
    (hmem : entry ∈ enumerated o (findView (convertViews app o 0) p) (convertViews app o 0))
    (hsel : (v.within c).select (entry.name (findView (convertViews app o 0) p)) = true) :
    ∃ attr ∈ c.workingSet p, v.select (attributeName (convertViews app o 0) attr) = true ∧
      entry.name (findView (convertViews app o 0) p) =
        attributeName (convertViews app o 0) attr ∧
      entry = ownConstraint (convertViews app o 0) (findView (convertViews app o 0) p) attr := by
  obtain ⟨hselected, hlisted⟩ := Bool.and_eq_true_iff.mp hsel
  have hsrc : (entry.name (findView (convertViews app o 0) p)).src = p := findView_pos hlt
  rw [decide_eq_true_eq, hsrc] at hlisted
  obtain ⟨attr, hattr, hname⟩ := List.mem_map.mp hlisted
  have honly := enumerated_filter (K := K) hp hlt (h p hp hlt attr hattr)
    (selects_name hlt (workingSet_proper hattr))
  refine ⟨attr, hattr, hname ▸ hselected, hname.symm, List.mem_singleton.mp ?_⟩
  rw [← honly, List.mem_filter, decide_eq_true_eq]
  exact ⟨hmem, hname.symm⟩

theorem Listed.exactlyOne_synthesizeNames (h : Listed c) (hp : p ≠ 0) (hlt : p < app.views.length)
    (hone : exactlyOne v.select (names app o (c.workingSet p)) = true) :
    exactlyOne (v.within c).select (synthesizeNames K app o p) = true := by
  obtain ⟨name, hname, hselected, huniq⟩ := exactlyOne_member hone
  obtain ⟨attr, hattr, rfl⟩ := List.mem_map.mp hname
  have honly := enumerated_filter (K := K) hp hlt (h p hp hlt attr hattr)
    (selects_name hlt (workingSet_proper hattr))
  have hfilter : (enumerated (K := K) o (findView (convertViews app o 0) p)
      (convertViews app o 0)).filter
        ((v.within c).select ∘ fun entry => entry.name (findView (convertViews app o 0) p)) =
      [ownConstraint (convertViews app o 0) (findView (convertViews app o 0) p) attr] := by
    rw [← honly]
    apply List.filter_congr
    intro entry hmem
    rw [Bool.eq_iff_iff, Function.comp_apply, decide_eq_true_eq]
    constructor
    · intro hsel
      obtain ⟨other, hother, hsel', hsame, _⟩ := h.exists_candidate hp hlt hmem hsel
      exact hsame.trans (huniq _ (List.mem_map_of_mem hother) hsel')
    · intro hsame
      rw [hsame]
      exact (narrow_select hlt (workingSet_proper hattr)).mpr ⟨hselected, hname⟩
  rw [synthesizeNames, exactlyOne_map, exactlyOne, decide_eq_true_eq,
    List.countP_eq_length_filter, hfilter]
  rfl

theorem Listed.models_enumeratedAssertions (h : Listed c) {w : Assignment K}
    (hsame : SameLayout w v) (hselect : w.select = (v.within c).select)
    (hsyn : ∀ p, p ≠ 0 → p < app.views.length → ∀ attr ∈ c.workingSet p,
      Models (synAttribute printed (convertViews app o 0) false attr) v) :
    Models (enumeratedAssertions o (convertViews app o 0)) w := by
  rw [enumeratedAssertions, models_flatMap, forall_nonRoot]
  intro p hp hlt
  rw [models_map]
  intro entry hmem
  rw [Enumerated.assertion, implies_eq_true, hselect]
  intro hsel
  obtain ⟨attr, hattr, hselected, _, rfl⟩ := h.exists_candidate hp hlt hmem hsel
  have hproper := workingSet_proper hattr
  obtain ⟨hvalue, hanchors⟩ := ownConstraint_value (K := K) hproper
    (rfl : findView (convertViews app o 0) p = _)
  obtain ⟨hholds, hdepth⟩ := (models_synAttribute.mp (hsyn p hp hlt attr hattr)).1 hselected
  rw [hproper.own] at hdepth
  rw [hvalue, Bool.and_eq_true, decide_eq_true_eq, hanchors, hsame.anchorValue, hsame.anchor_eq]
  exact ⟨(hsame.formula ..).trans hholds, hdepth⟩

variable [IsStrictOrderedRing K]

/-- A bias of one half is within the bounds of a free one. -/
theorem addPositionConstraints_free
    (h : Models (addPositionConstraints (convertViews app o 0) true) v) :
    Models (addPositionConstraints (convertViews app o 0) false) v := by
  rw [models_addPositionConstraints] at h ⊢
  intro p view hview
  obtain ⟨hmargins, hpositions, hbias⟩ := h p view hview
  rw [if_pos rfl] at hbias
  refine ⟨hmargins, hpositions, ?_⟩
  rw [if_neg (by decide), hbias]
  constructor <;> norm_num

/-- A model of the working sets makes its choices within the enumeration. -/
theorem Listed.models_synthesizeAssertions (h : Listed c)
    (hv : MultiDevice.Shared printed deviceApps userInput robust c v) :
    Models (synthesizeAssertions app o) { v.within c with satisfied := fun _ _ => true } := by
  have hsame : SameLayout { v.within c with satisfied := fun _ _ => true } v :=
    ⟨rfl, rfl, rfl, rfl, rfl, rfl⟩
  obtain ⟨hframe, ⟨hsyn, _⟩, hone⟩ := hv
  obtain ⟨⟨hposition, hanchor⟩, _⟩ := models_frameAssertions.mp hframe
  rw [synthesizeAssertions, models_append, models_append, models_append, models_append]
  refine ⟨⟨⟨⟨?_, hsame.addAnchorConstraints.mpr hanchor⟩,
    h.models_enumeratedAssertions hsame rfl hsyn⟩, ?_⟩, ?_⟩
  · have hfree := addPositionConstraints_free hposition
    rw [models_addPositionConstraints] at hfree ⊢
    exact hfree
  · rw [models_assertExactlyOne]
    intro p hp hlt _
    exact h.exactlyOne_synthesizeNames hp hlt (hone p (mem_nonRootPositions.mpr ⟨hp, hlt⟩))
  · rw [models_assumeSatisfied]
    exact fun _ _ _ => rfl

end

/-! ## Models of a run -/

namespace MultiDevice
variable [Zero Prob] [LinearOrder Prob] [Field K] [LinearOrder K] [FloorRing K]
variable {app : App Prob} {o : Orientation}

/-- `w` has the layout of `v` and makes the same choices among the candidates of `c`. -/
structure Extends (c : CandidateConstraints app o) (v w : Assignment K) : Prop where
  layout : SameLayout w v
  choices : ∀ p, p ≠ 0 → p < app.views.length → ∀ attr ∈ c.workingSet p,
    w.select (attributeName (convertViews app o 0) attr) =
      v.select (attributeName (convertViews app o 0) attr)

omit [Zero Prob] [LinearOrder Prob] [Field K] [LinearOrder K] [FloorRing K] in
theorem extends_within (c : CandidateConstraints app o) (v : Assignment K)
    (satisfied : Nat → Nat → Bool) :
    Extends c v { v.within c with satisfied := satisfied } where
  layout := ⟨rfl, rfl, rfl, rfl, rfl, rfl⟩
  choices p _ hlt attr hattr := by
    rw [Bool.eq_iff_iff]
    change (v.within c).select _ = true ↔ _
    rw [Assignment.within, narrow_select hlt (workingSet_proper hattr)]
    exact and_iff_left (List.mem_map_of_mem hattr)

omit [Zero Prob] [LinearOrder Prob] [LinearOrder K] [FloorRing K] [Field K] in
/-- The first query, on a wider screen, has a model that ties the view to the root. -/
theorem sampleModel_firstQuery :
    Models (run id [sampleDevice] false true (sampleCache .horizontal) []).query sampleModel := by
  decide +kernel

/-- No round loses a layout: a model of the query after some rounds becomes one of the query after
any further rounds, whatever the unsat cores were, with the same layout and the same choices. -/
theorem rounds_keep_models (hroot : app.Rooted) (model : ProbModel Prob) (sort : StdSort Prob)
    (printed : Prob → K) {deviceApps : List (App Prob)}
    (hviews : ∀ device ∈ deviceApps, device.views.length = app.views.length)
    (userInput robust : Bool) (cores more : List (List Nat)) {v : Assignment K} :
    let state (cores : List (List Nat)) : MultiDevice app o K :=
      run printed deviceApps userInput robust (.ofModel model sort app hroot o) cores
    Models (state cores).query v →
      ∃ w, Extends (state cores).encoder.candidates v w ∧
        Models (state (cores ++ more)).query w := by
  intro state hv
  obtain ⟨before, hbefore⟩ := run_invariant printed deviceApps userInput robust
    (.ofModel model sort app hroot o) cores
  obtain ⟨after, hafter⟩ := run_invariant printed deviceApps userInput robust
    (.ofModel model sort app hroot o) (cores ++ more)
  have hcovers : Covers (state cores).encoder.candidates
      (state (cores ++ more)).encoder.candidates := by
    refine ⟨run_subset printed deviceApps userInput robust _ cores more, ?_⟩
    intro p hp hlt
    apply workingSet_distinct
    rw [(run_origin printed deviceApps userInput robust _ (cores ++ more)).same]
    exact ofModel_distinct hroot hp hlt
  have hshared := hcovers.shared hviews ((query_iff hbefore v).mp ⟨v.satisfied, hv⟩)
  obtain ⟨satisfied, hw⟩ := (query_iff hafter _).mpr hshared
  exact ⟨_, extends_within _ v satisfied, hw⟩

theorem rounds_keep_models_sample : ∃ w : Assignment ℚ, SameLayout w sampleModel ∧
    Models (run id [sampleDevice] false true (sampleCache .horizontal) [[1], [1]]).query w := by
  have hviews : ∀ device ∈ [sampleDevice],
      device.views.length = sampleApp.views.length := by decide
  obtain ⟨w, hextends, hw⟩ := rounds_keep_models sampleApp_rooted (fun _ _ => 0) (.insertion ℚ) id
    hviews false true [] [[1], [1]] sampleModel_firstQuery
  exact ⟨w, hextends.layout, hw⟩

/-- The full enumeration loses no layout either: it has a model with the layout and the choices of
any model that the candidates have after any rounds. -/
theorem enumeration_keeps_models [IsStrictOrderedRing K] (hroot : app.Rooted)
    (model : ProbModel Prob) (sort : StdSort Prob) (printed : Prob → K)
    (deviceApps : List (App Prob)) (userInput robust : Bool) (cores : List (List Nat))
    {v : Assignment K} :
    let state : MultiDevice app o K :=
      run printed deviceApps userInput robust (.ofModel model sort app hroot o) cores
    Models state.query v →
      ∃ w, Extends state.encoder.candidates v w ∧ Models (synthesizeAssertions app o) w := by
  intro state hv
  obtain ⟨history, h⟩ := run_invariant printed deviceApps userInput robust
    (.ofModel model sort app hroot o) cores
  have horigin := run_origin printed deviceApps userInput robust
    (.ofModel model sort app hroot o) cores
  have hlisted : Listed state.encoder.candidates := by
    intro p hp hlt attr hattr
    obtain ⟨hcandidate, hallowed⟩ := horigin.allowed hp hattr
    exact valid_of_allowed hroot hp hlt hcandidate hallowed
  exact ⟨_, extends_within _ v _,
    hlisted.models_synthesizeAssertions ((query_iff h v).mp ⟨v.satisfied, hv⟩)⟩

theorem enumeration_keeps_models_sample : ∃ w : Assignment ℚ, SameLayout w sampleModel ∧
    Models (synthesizeAssertions sampleApp .horizontal) w := by
  obtain ⟨w, hextends, hw⟩ := enumeration_keeps_models sampleApp_rooted (fun _ _ => 0)
    (.insertion ℚ) id [sampleDevice] false true [] sampleModel_firstQuery
  exact ⟨w, hextends.layout, hw⟩

end MultiDevice
end InferUI
