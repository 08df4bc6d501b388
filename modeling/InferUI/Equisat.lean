import InferUI.SingleQuery

/-!
# The two encodings of the single query agree

The rounds of `GetSatConstraintsSingleQuery` leave an exactly-one constraint for every working
set a view ever had. Only the newest ones are assumed, and they are those that the fresh solver
gets. Everything else is asserted once in both.
-/

namespace InferUI
open Store
variable {Prob K : Type}

/-- The views of both orientations that carry an exactly-one constraint. -/
def guardedViews (app : App Prob) : List (Orientation × Nat) :=
  orientations.flatMap fun o =>
    ((List.range app.views.length).filter fun p => decide (p ≠ 0)).map fun p => (o, p)

theorem mem_guardedViews {app : App Prob} {key : Orientation × Nat} :
    key ∈ guardedViews app ↔ key.2 ≠ 0 ∧ key.2 < app.views.length := by
  obtain ⟨o, p⟩ := key
  simp only [guardedViews, List.mem_flatMap, mem_orientations, true_and, List.mem_map,
    List.mem_filter, List.mem_range, decide_eq_true_eq, Prod.mk.injEq]
  constructor
  · rintro ⟨o', q, ⟨hlt, hq⟩, rfl, rfl⟩
    exact ⟨hq, hlt⟩
  · rintro ⟨hp, hlt⟩
    exact ⟨o, p, ⟨hlt, hp⟩, rfl, rfl⟩

def satisfiedVar (key : Orientation × Nat) : Nat := uniqueId key.2 key.1

theorem satisfiedVar_injective {app : App Prob} (hsmall : app.views.length ≤ 1000) :
    ∀ k ∈ guardedViews app, ∀ k' ∈ guardedViews app, satisfiedVar k = satisfiedVar k' → k = k' := by
  intro k hk k' hk' he
  have h := (mem_guardedViews.mp hk).2
  have h' := (mem_guardedViews.mp hk').2
  obtain ⟨hp, ho⟩ := uniqueId_inj (by omega) (by omega) he
  exact Prod.ext ho hp

/-! ## Assertions that read neither activation nor cost variables -/

def Blind (e : Expr K) : Prop :=
  ∀ (v : Assignment K) (cost : Nat → K) (satisfied : Nat → Nat → Bool),
    e { v with cost := cost, satisfied := satisfied } = e v

theorem models_blind {store : List (Expr K)} (h : ∀ e ∈ store, Blind e) (v : Assignment K)
    (cost : Nat → K) (satisfied : Nat → Nat → Bool) :
    Models store { v with cost := cost, satisfied := satisfied } ↔ Models store v :=
  models_congr fun e he => h e he v cost satisfied

theorem blind_assertPosition (view : Z3View) :
    ∀ e ∈ (view.assertPosition : List (Expr K)), Blind e := by
  intro e he v cost satisfied
  simp only [Z3View.assertPosition, List.mem_cons, List.not_mem_nil, or_false] at he
  obtain rfl | rfl := he <;> rfl

theorem blind_assertBlocking (blocking : Option (BlockingConstraintsHelper Prob))
    (deviceApps : List (App Prob)) :
    ∀ e ∈ (assertBlocking blocking deviceApps : List (Expr K)), Blind e := by
  intro e he v cost satisfied
  cases blocking with
  | none => cases he
  | some helper =>
    obtain ⟨views, _, rfl⟩ := List.mem_map.mp he
    rfl

theorem blind_addAnchorConstraints (views : List Z3View) :
    ∀ e ∈ (addAnchorConstraints views : List (Expr K)), Blind e := by
  intro e he v cost satisfied
  obtain ⟨view, _, rfl⟩ := List.mem_map.mp he
  rfl

theorem blind_assertKnownPositions (n : Nat) (views : List Z3View) :
    ∀ e ∈ (assertKnownPositions n views : List (Expr K)), Blind e := by
  intro e he
  obtain ⟨view, _, hin⟩ := List.mem_flatMap.mp he
  split at hin
  · exact blind_assertPosition view e hin
  · cases hin

section
variable [Field K] [LinearOrder K]

theorem blind_addPositionConstraints (views : List Z3View) (fixedBias : Bool) :
    ∀ e ∈ (addPositionConstraints views fixedBias : List (Expr K)), Blind e := by
  intro e he
  obtain ⟨view, _, hin⟩ := List.mem_flatMap.mp he
  rw [List.mem_append, List.mem_append] at hin
  obtain (hin | hin) | hin := hin
  · intro v cost satisfied
    simp only [List.mem_cons, List.not_mem_nil, or_false] at hin
    obtain rfl | rfl := hin <;> rfl
  · exact blind_assertPosition view e hin
  · intro v cost satisfied
    split at hin <;> simp only [List.mem_cons, List.not_mem_nil, or_false] at hin
    · subst hin
      rfl
    · obtain rfl | rfl := hin <;> rfl

/-- The assertions of an orientation that do not depend on the working set. -/
def fixedAssertions (deviceApps : List (App Prob)) (app : App Prob) (o : Orientation) :
    List (Expr K) :=
  addPositionConstraints (convertViews app o 0) true ++
    addAnchorConstraints (convertViews app o 0) ++
    deviceApps.zipIdx.flatMap fun device =>
      assertKnownPositions app.views.length (convertViews device.1 o (device.2 + 1)) ++
        assertRoot (convertViews device.1 o (device.2 + 1))

theorem blind_fixedAssertions (deviceApps : List (App Prob)) (app : App Prob) (o : Orientation) :
    ∀ e ∈ (fixedAssertions deviceApps app o : List (Expr K)), Blind e := by
  intro e he
  rw [fixedAssertions, List.mem_append, List.mem_append] at he
  obtain (he | he) | he := he
  · exact blind_addPositionConstraints _ _ e he
  · exact blind_addAnchorConstraints _ e he
  · obtain ⟨device, _, he⟩ := List.mem_flatMap.mp he
    obtain he | he := List.mem_append.mp he
    · exact blind_assertKnownPositions _ _ e he
    · exact blind_assertPosition _ e he

variable [FloorRing K]

theorem blind_formula (type : ConstraintType) (size : ViewSize) (src l : Z3View)
    (r : Option Z3View) : Blind (formula (K := K) type size src l r) := by
  intro v cost satisfied
  cases type <;> cases size <;> rfl

theorem blind_synAttribute (printed : Prob → K) (views : List Z3View) (attr : Attribute Prob) :
    ∀ e ∈ synAttribute printed views false attr, Blind e := by
  intro e he v cost satisfied
  obtain rfl := List.mem_singleton.mp he
  have hvalue : attributeValue views attr { v with cost := cost, satisfied := satisfied } =
      attributeValue views attr v := blind_formula _ _ _ _ _ v cost satisfied
  beta_reduce
  rw [hvalue]
  rfl

theorem blind_genAttribute (app : App Prob) (o : Orientation) (views : List Z3View)
    (attr : Attribute Prob) : Blind (genAttribute (K := K) app o views attr) := by
  intro v cost satisfied
  have hvalue : attributeValue views attr { v with cost := cost, satisfied := satisfied } =
      attributeValue views attr v := blind_formula _ _ _ _ _ v cost satisfied
  simp only [genAttribute]
  rw [hvalue]
  rfl

end

/-! ## The meaning of the assertions -/

section
variable {app : App Prob}

/-- The exactly-one constraints of both orientations, one for each view. -/
theorem models_finishedAdding_all {encoder : (o : Orientation) → Encoder app o} {v : Assignment K} :
    (∀ o, Models (finishedAddingConstraints (convertViews app o 0) (encoder o)) v) ↔
      ∀ guard ∈ Store.round (guardedViews app) (fun k => (encoder k.1).satisfiedId k.2)
        (fun k => (encoder k.1).constraints k.2), guard.Holds satisfiedVar v.satisfied v.select := by
  simp only [forall_round, mem_guardedViews, finishedAddingConstraints, models_assertExactlyOne]
  constructor
  · rintro h ⟨o, p⟩ ⟨hp, hlt⟩
    exact h o p hp hlt
  · intro h o p hp hlt
    exact h (o, p) ⟨hp, hlt⟩

theorem models_getAllAssumptions {encoder : (o : Orientation) → Encoder app o}
    {v : Assignment K} :
    Models (getAllAssumptions encoder) v ↔
      ∀ key ∈ guardedViews app,
        v.satisfied (satisfiedVar key) ((encoder key.1).satisfiedId key.2) = true := by
  simp only [getAllAssumptions, models_flatMap, mem_orientations, forall_const, getAssumptions,
    models_assumeSatisfied, mem_guardedViews]
  constructor
  · rintro h ⟨o, p⟩ ⟨hp, hlt⟩
    exact h o p hp hlt
  · intro h o p hp hlt
    exact h (o, p) ⟨hp, hlt⟩

/-- The names of the constraints of a view, in the order of its working set. -/
def names (app : App Prob) (o : Orientation) (attrs : List (Attribute Prob)) :
    List ConstraintData :=
  attrs.map (attributeName (convertViews app o 0))

/-- Every selected one among `attrs` has its own cost. -/
def CostsHold (printed : Prob → K) (app : App Prob) (o : Orientation) (attrs : Nat → List (Attribute Prob))
    (v : Assignment K) : Prop :=
  ∀ p, p ≠ 0 → p < app.views.length → ∀ attr ∈ attrs p,
    v.select (attributeName (convertViews app o 0) attr) = true →
      (findView (convertViews app o 0) attr.src).cost v = printed attr.prob

/-- Costs for which every selected attribute has its own. -/
theorem exists_cost [Zero K] {app : App Prob} (printed : Prob → K)
    {attrs : Orientation → Nat → List (Attribute Prob)}
    (hown : ∀ o p, p ≠ 0 → p < app.views.length → ∀ attr ∈ attrs o p, attr.src = p)
    (hsmall : app.views.length ≤ 1000) {v : Assignment K}
    (hone : ∀ key ∈ guardedViews app,
      exactlyOne v.select (names app key.1 (attrs key.1 key.2)) = true)
    (satisfied : Nat → Nat → Bool) :
    ∃ cost : Nat → K, ∀ o, CostsHold printed app o (attrs o)
      { v with cost := cost, satisfied := satisfied } := by
  classical
  let Selects (u : Nat) (attr : Attribute Prob) : Prop := ∃ key ∈ guardedViews app,
    satisfiedVar key = u ∧ attr ∈ attrs key.1 key.2 ∧
      v.select (attributeName (convertViews app key.1 0) attr) = true
  refine ⟨fun u => if h : ∃ attr, Selects u attr then printed h.choose.prob else 0, ?_⟩
  intro o p hp hlt attr ha hsel
  have hkey : (o, p) ∈ guardedViews app := mem_guardedViews.mpr ⟨hp, hlt⟩
  have hex : ∃ attr, Selects (uniqueId p o) attr := ⟨attr, (o, p), hkey, rfl, ha, hsel⟩
  obtain ⟨key, hk, hvar, hm, hs⟩ := hex.choose_spec
  obtain rfl := satisfiedVar_injective hsmall key hk (o, p) hkey hvar
  -- the one selected constraint of the view is both
  have hunique := hone (o, p) hkey
  rw [names, exactlyOne_map] at hunique
  obtain ⟨chosen, _, _, huniq⟩ := exactlyOne_member hunique
  have hsame : hex.choose = attr := (huniq _ hm hs).trans (huniq attr ha hsel).symm
  rw [hown o p hp hlt attr ha, Z3View.cost, findView_uniqueId hlt]
  simp only [dif_pos hex, hsame]

end

section
variable [Field K] [LinearOrder K] [FloorRing K] {app : App Prob} {o : Orientation}
variable (printed : Prob → K) (deviceApps : List (App Prob))

/-- The selected ones among `attrs` hold in the reference and on every device. -/
def AttributesHold (app : App Prob) (o : Orientation) (attrs : Nat → List (Attribute Prob))
    (v : Assignment K) : Prop :=
  (∀ p, p ≠ 0 → p < app.views.length → ∀ attr ∈ attrs p,
    Models (synAttribute printed (convertViews app o 0) false attr) v) ∧
  ∀ device ∈ deviceApps.zipIdx, ∀ p, p ≠ 0 → p < device.1.views.length → ∀ attr ∈ attrs p,
    genAttribute app o (convertViews device.1 o (device.2 + 1)) attr v = true

variable {printed deviceApps}

theorem attributesHold_append {attrs more : Nat → List (Attribute Prob)} {v : Assignment K} :
    AttributesHold printed deviceApps app o (fun p => attrs p ++ more p) v ↔
      AttributesHold printed deviceApps app o attrs v ∧
        AttributesHold printed deviceApps app o more v := by
  simp only [AttributesHold, List.mem_append, or_imp, forall_and]
  constructor
  · rintro ⟨⟨h1, h2⟩, h3, h4⟩
    exact ⟨⟨h1, h3⟩, h2, h4⟩
  · rintro ⟨⟨h1, h3⟩, h2, h4⟩
    exact ⟨⟨h1, h2⟩, h3, h4⟩

/-- The costs that are asserted when the cost is maximised stand beside the rest. -/
theorem models_addSynAttributes_opt {c : CandidateConstraints app o} {opt : Bool}
    {v : Assignment K} :
    Models (addSynAttributes printed (convertViews app o 0) c opt) v ↔
      Models (addSynAttributes printed (convertViews app o 0) c false) v ∧
      (opt = true → CostsHold printed app o c.getAttributes v) := by
  simp only [models_addSynAttributes, models_synAttribute, CostsHold, Bool.false_eq_true,
    false_implies, and_true]
  constructor
  · intro h
    refine ⟨fun p hp hlt attr ha => (h p hp hlt attr ha).1, ?_⟩
    intro hopt p hp hlt attr ha
    exact (h p hp hlt attr ha).2 hopt
  · rintro ⟨h1, h2⟩ p hp hlt attr ha
    exact ⟨h1 p hp hlt attr ha, fun hopt => h2 hopt p hp hlt attr ha⟩

theorem models_addOrientation {enc : Encoder app o} {opt : Bool} {v : Assignment K} :
    Models (addOrientation printed deviceApps opt enc).1 v ↔
      Models (fixedAssertions deviceApps app o) v ∧
      AttributesHold printed deviceApps app o enc.candidates.getAttributes v ∧
      (opt = true → CostsHold printed app o enc.candidates.getAttributes v) ∧
      Models (finishedAddingConstraints (convertViews app o 0)
        (addOrientation printed deviceApps opt enc).2) v := by
  have hsyn : Models (addSynAttributes printed (convertViews app o 0) enc.candidates opt) v ↔
      Models (addSynAttributes printed (convertViews app o 0) enc.candidates false) v ∧
      (opt = true → CostsHold printed app o enc.candidates.getAttributes v) :=
    models_addSynAttributes_opt
  simp only [addOrientation, addDevice, fixedAssertions, AttributesHold, models_append,
    models_flatMap, hsyn, models_addGenAttributes, ← models_addSynAttributes, forall_and]
  have hfin : Models (finishedAddingConstraints (convertViews app o 0)
      (enc.addConstraintExprs (convertViews app o 0)).finishAdding) v ↔
    Models (finishedAddingConstraints (convertViews app o 0)
      (enc.addConstraintExprs (convertViews app o 0))) v := Iff.rfl
  rw [hfin]
  tauto

theorem models_addMoreConstraints {enc : Encoder app o} {v : Assignment K} :
    Models (addMoreConstraints printed deviceApps enc).1 v ↔
      AttributesHold printed deviceApps app o enc.candidates.getAttributes v ∧
      Models (finishedAddingConstraints (convertViews app o 0)
        (addMoreConstraints printed deviceApps enc).2) v := by
  simp only [addMoreConstraints, AttributesHold, models_append, models_flatMap,
    models_addGenAttributes, ← models_addSynAttributes]

/-! ## Widening -/

/-- What the start of a round does to an encoder: a view whose activation variable stays the
same gets no new candidates. -/
structure Encoder.Widens (enc d : Encoder app o) : Prop where
  candidates : enc.candidates.Widens d.candidates
  constraints : d.constraints = enc.constraints
  gen_le : ∀ p, enc.satisfiedId p ≤ d.satisfiedId p
  same : ∀ p, d.satisfiedId p = enc.satisfiedId p →
    d.candidates.constraintsMaxRank p = enc.candidates.constraintsMaxRank p

theorem Encoder.Widens.increaseRankOf {enc d : Encoder app o} (h : enc.Widens d) (p value : Nat) :
    enc.Widens (d.increaseRankOf p value) := by
  refine ⟨h.candidates.increaseRankOf p value, h.constraints, ?_, ?_⟩
  · intro q
    have hle := h.gen_le q
    by_cases hq : q = p
    · subst hq
      simp only [Encoder.increaseRankOf, Function.update_self]
      omega
    · simpa only [Encoder.increaseRankOf, Function.update_of_ne hq] using hle
  · intro q
    have hle := h.gen_le q
    by_cases hq : q = p
    · subst hq
      simp only [Encoder.increaseRankOf, Function.update_self]
      omega
    · simpa only [Encoder.increaseRankOf, CandidateConstraints.increaseRankOf,
        Function.update_of_ne hq] using h.same q

theorem Encoder.Widens.foldl {α : Type} {enc d : Encoder app o} (h : enc.Widens d)
    (pos : α → Nat) (value : Nat) (xs : List α) :
    enc.Widens (xs.foldl (fun enc x => enc.increaseRankOf (pos x) value) d) := by
  induction xs generalizing d with
  | nil => exact h
  | cons x xs ih => exact ih (h.increaseRankOf (pos x) value)

theorem Encoder.widen_widens {enc : Encoder app o}
    (h : enc.candidates.constraintsAdded = enc.candidates.constraintsMaxRank) (numTries : Nat)
    (core : List Nat) : enc.Widens (enc.widen numTries core) := by
  have hrefl : enc.Widens enc := ⟨.refl h, rfl, fun _ => le_rfl, fun _ _ => rfl⟩
  rw [Encoder.widen]
  split
  · exact hrefl.foldl _ 5 _
  · exact hrefl.foldl id 10 core

/-! ## The invariant of the rounds -/

/-- Candidates of which everything in the working set was handed out, with their names in the
vectors `constraints`. -/
structure Encoder.Complete (enc : Encoder app o) : Prop where
  added : enc.candidates.constraintsAdded = enc.candidates.constraintsMaxRank
  positive : ∀ p, 0 < enc.candidates.constraintsMaxRank p
  constraints : ∀ p, p ≠ 0 → p < app.views.length →
    enc.constraints p = names app o (enc.candidates.workingSet p)

variable (printed deviceApps) in
theorem Encoder.Complete.widen {enc d : Encoder app o} (h : enc.Complete) (hw : enc.Widens d) :
    (addMoreConstraints printed deviceApps d).2.Complete := by
  refine ⟨rfl, fun p => (h.positive p).trans_le (hw.candidates.rank_le p), ?_⟩
  intro p hp hlt
  have hnew := addConstraintExprs_constraints (d := 0) d hp hlt
  have hset : d.candidates.finishAdding.workingSet p = d.candidates.workingSet p := rfl
  simp only [addMoreConstraints, Encoder.finishAdding]
  rw [hnew, hw.constraints, h.constraints p hp hlt]
  change _ = names app o (d.candidates.finishAdding.workingSet p)
  rw [hset, hw.candidates.workingSet (h.positive p), names, names, List.map_append]

/-- What is asserted once and for all, whatever happened in between. -/
structure Common (printed : Prob → K) (deviceApps : List (App Prob))
    (blocking : Option (BlockingConstraintsHelper Prob)) (app : App Prob)
    (attrs : Orientation → Nat → List (Attribute Prob)) (v : Assignment K) : Prop where
  blocking : Models (assertBlocking blocking deviceApps) v
  fixed : ∀ o, Models (fixedAssertions deviceApps app o) v
  attributes : ∀ o, AttributesHold printed deviceApps app o (attrs o) v

/-- The assertions of the incremental solver: those about the current working set, and the
exactly-one constraints of every round. -/
structure Invariant (printed : Prob → K) (deviceApps : List (App Prob))
    (blocking : Option (BlockingConstraintsHelper Prob)) (st : SingleQuery app K)
    (history : List (Guard (Orientation × Nat) ConstraintData)) : Prop where
  complete : ∀ o, (st.encoder o).Complete
  tracks : Tracks history (guardedViews app) (fun k => (st.encoder k.1).satisfiedId k.2)
    (fun k => (st.encoder k.1).constraints k.2)
  models : ∀ v, Models st.assertions v ↔
    Common printed deviceApps blocking app (fun o => (st.encoder o).candidates.workingSet) v ∧
      ∀ guard ∈ history, guard.Holds satisfiedVar v.satisfied v.select

theorem models_addConstraintsSingleQuery {encoder : (o : Orientation) → Encoder app o}
    {opt : Bool} {blocking : Option (BlockingConstraintsHelper Prob)} {v : Assignment K} :
    Models (addConstraintsSingleQuery printed deviceApps opt encoder) v ∧
        Models (assertBlocking blocking deviceApps) v ↔
      Common printed deviceApps blocking app (fun o => (encoder o).candidates.getAttributes) v ∧
      (opt = true → ∀ o, CostsHold printed app o (encoder o).candidates.getAttributes v) ∧
      ∀ o, Models (finishedAddingConstraints (convertViews app o 0)
        (addOrientation printed deviceApps opt (encoder o)).2) v := by
  simp only [addConstraintsSingleQuery, models_flatMap, mem_orientations, forall_const,
    models_addOrientation, forall_and]
  constructor
  · rintro ⟨⟨h1, h2, h3, h4⟩, h5⟩
    exact ⟨⟨h5, h1, h2⟩, fun hopt o => h3 o hopt, h4⟩
  · rintro ⟨⟨h5, h1, h2⟩, h3, h4⟩
    exact ⟨⟨h1, h2, fun o hopt => h3 hopt o, h4⟩, h5⟩

variable (scorers : (o : Orientation) → ConstraintCache app o)
variable (printed deviceApps) (blocking : Option (BlockingConstraintsHelper Prob))

/-- The working set a view starts with is never empty, and nothing of it was handed out. -/
theorem initialCandidates_getAttributes (o : Orientation) :
    (initialCandidates scorers o).getAttributes =
      (initialCandidates scorers o).finishAdding.workingSet := by
  funext p
  exact CandidateConstraints.getAttributes_eq_workingSet rfl

theorem start_invariant :
    let st : SingleQuery app K :=
      .start printed deviceApps blocking (initialCandidates scorers)
    Invariant printed deviceApps blocking st
      (Store.round (guardedViews app) (fun k => (st.encoder k.1).satisfiedId k.2)
        (fun k => (st.encoder k.1).constraints k.2)) where
  complete o := by
    refine ⟨rfl, fun p => Nat.succ_pos 4, ?_⟩
    intro p hp hlt
    have hnew := addConstraintExprs_constraints (d := 0)
      (Encoder.ofCandidates (initialCandidates scorers o)) hp hlt
    have hget := congrFun (initialCandidates_getAttributes scorers o) p
    exact hnew.trans (congrArg (names app o) hget)
  tracks := tracks_round _ _ _
  models v := by
    have hget (o : Orientation) := initialCandidates_getAttributes scorers o
    rw [SingleQuery.start, models_append, models_addConstraintsSingleQuery,
      ← models_finishedAdding_all]
    simp only [Bool.false_eq_true, false_implies, true_and, Encoder.ofCandidates, hget]
    rfl

variable {printed deviceApps blocking} in
theorem round_invariant {st : SingleQuery app K} {history : List (Guard (Orientation × Nat) ConstraintData)}
    (h : Invariant printed deviceApps blocking st history) (core : Orientation → List Nat) :
    ∃ history', Invariant printed deviceApps blocking
      (st.round printed deviceApps core) history' := by
  have hw (o : Orientation) := Encoder.widen_widens (h.complete o).added (st.numTries + 1) (core o)
  have hcomplete (o : Orientation) : ((st.round printed deviceApps core).encoder o).Complete :=
    (h.complete o).widen printed deviceApps (hw o)
  refine ⟨history ++ Store.round (guardedViews app)
    (fun k => ((st.round printed deviceApps core).encoder k.1).satisfiedId k.2)
    (fun k => ((st.round printed deviceApps core).encoder k.1).constraints k.2), hcomplete, ?_, ?_⟩
  · apply h.tracks.round
    · rintro ⟨o, p⟩
      exact (hw o).gen_le p
    · -- a view that keeps its activation variable has nothing new to add
      rintro ⟨o, p⟩ hk hsame
      obtain ⟨hp, hlt⟩ := mem_guardedViews.mp hk
      have hnone := (hw o).candidates.rank_same ((hw o).same p hsame) ((h.complete o).positive p)
      have hset := (hw o).candidates.workingSet ((h.complete o).positive p)
      rw [hnone, List.append_nil] at hset
      rw [(h.complete o).constraints p hp hlt, (hcomplete o).constraints p hp hlt]
      exact congrArg (names app o) hset
  · intro v
    have hset (o : Orientation) :
        ((st.round printed deviceApps core).encoder o).candidates.workingSet = fun p =>
          (st.encoder o).candidates.workingSet p ++
            ((st.encoder o).widen (st.numTries + 1) (core o)).candidates.getAttributes p := by
      funext p
      exact (hw o).candidates.workingSet ((h.complete o).positive p)
    have hcommon : Common printed deviceApps blocking app
        (fun o => ((st.round printed deviceApps core).encoder o).candidates.workingSet) v ↔
      Common printed deviceApps blocking app
        (fun o => (st.encoder o).candidates.workingSet) v ∧
      ∀ o, AttributesHold printed deviceApps app o
        ((st.encoder o).widen (st.numTries + 1) (core o)).candidates.getAttributes v := by
      simp only [hset]
      constructor
      · rintro ⟨h1, h2, h3⟩
        exact ⟨⟨h1, h2, fun o => (attributesHold_append.mp (h3 o)).1⟩,
          fun o => (attributesHold_append.mp (h3 o)).2⟩
      · rintro ⟨⟨h1, h2, h3⟩, h4⟩
        exact ⟨h1, h2, fun o => attributesHold_append.mpr ⟨h3 o, h4 o⟩⟩
    rw [hcommon, List.forall_mem_append, ← models_finishedAdding_all]
    simp only [SingleQuery.round, models_append, models_flatMap, mem_orientations, forall_const,
      models_addMoreConstraints, forall_and, h.models v]
    tauto

theorem run_invariant (cores : List (Orientation → List Nat)) :
    let st : SingleQuery app K :=
      .run printed deviceApps blocking (initialCandidates scorers) cores
    ∃ history, Invariant printed deviceApps blocking st history := by
  induction cores using List.reverseRecOn with
  | nil => exact ⟨_, start_invariant printed deviceApps scorers blocking⟩
  | append_singleton cores core ih =>
    obtain ⟨history, h⟩ := ih
    rw [SingleQuery.run, List.foldl_append]
    exact round_invariant h core

/-! ## Both queries, without their auxiliary variables -/

theorem common_blind {attrs : Orientation → Nat → List (Attribute Prob)} (v : Assignment K) (cost : Nat → K)
    (satisfied : Nat → Nat → Bool) :
    Common printed deviceApps blocking app attrs
        { v with cost := cost, satisfied := satisfied } ↔
      Common printed deviceApps blocking app attrs v := by
  have hblocking := models_blind (blind_assertBlocking blocking deviceApps) v cost satisfied
  have hfixed (o : Orientation) := models_blind (blind_fixedAssertions deviceApps app o) v cost
    satisfied
  have hattrs (o : Orientation) :
      AttributesHold printed deviceApps app o (attrs o)
        { v with cost := cost, satisfied := satisfied } ↔
      AttributesHold printed deviceApps app o (attrs o) v := by
    simp only [AttributesHold, models_blind (blind_synAttribute _ _ _) v cost satisfied,
      blind_genAttribute _ _ _ _ v cost satisfied]
  constructor
  · rintro ⟨h1, h2, h3⟩
    exact ⟨hblocking.mp h1, fun o => (hfixed o).mp (h2 o), fun o => (hattrs o).mp (h3 o)⟩
  · rintro ⟨h1, h2, h3⟩
    exact ⟨hblocking.mpr h1, fun o => (hfixed o).mpr (h2 o), fun o => (hattrs o).mpr (h3 o)⟩

/-- What both queries say of the variables they share. -/
def Shared (printed : Prob → K) (deviceApps : List (App Prob))
    (blocking : Option (BlockingConstraintsHelper Prob)) (app : App Prob)
    (attrs : Orientation → Nat → List (Attribute Prob)) (v : Assignment K) : Prop :=
  Common printed deviceApps blocking app attrs v ∧
    ∀ key ∈ guardedViews app,
      exactlyOne v.select (names app key.1 (attrs key.1 key.2)) = true

variable {printed deviceApps blocking} in
theorem query_iff {st : SingleQuery app K} {history : List (Guard (Orientation × Nat) ConstraintData)}
    (h : Invariant printed deviceApps blocking st history) (hsmall : app.views.length ≤ 1000)
    (v : Assignment K) :
    (∃ satisfied, Models st.query { v with satisfied := satisfied }) ↔
      Shared printed deviceApps blocking app
        (fun o => (st.encoder o).candidates.workingSet) v := by
  have hlits (key) (hk : key ∈ guardedViews app) : (st.encoder key.1).constraints key.2 =
      names app key.1 ((st.encoder key.1).candidates.workingSet key.2) :=
    (h.complete key.1).constraints key.2 (mem_guardedViews.mp hk).1 (mem_guardedViews.mp hk).2
  have hone : (∀ key ∈ guardedViews app,
        exactlyOne v.select ((st.encoder key.1).constraints key.2) = true) ↔
      ∀ key ∈ guardedViews app, exactlyOne v.select
        (names app key.1 ((st.encoder key.1).candidates.workingSet key.2)) = true :=
    forall₂_congr fun key hk => by rw [hlits key hk]
  rw [Shared, ← hone, ← h.tracks.activate_iff (satisfiedVar_injective hsmall) v.select,
    ← exists_and_left]
  apply exists_congr
  intro satisfied
  have hcommon : Common printed deviceApps blocking app
        (fun o => (st.encoder o).candidates.workingSet) { v with satisfied := satisfied } ↔
      Common printed deviceApps blocking app
        (fun o => (st.encoder o).candidates.workingSet) v :=
    common_blind printed deviceApps blocking v v.cost satisfied
  rw [SingleQuery.query, models_append, h.models, models_getAllAssumptions, hcommon]
  tauto

theorem oneShot_iff (st : SingleQuery app K)
    (hsmall : app.views.length ≤ 1000) (opt : Bool) (v : Assignment K) :
    (∃ cost satisfied, Models (st.oneShot printed deviceApps blocking opt)
      { v with cost := cost, satisfied := satisfied }) ↔
      Shared printed deviceApps blocking app
        (fun o => (st.encoder o).candidates.workingSet) v := by
  let encoder (o : Orientation) := Encoder.ofCandidates (st.encoder o).candidates.resetAdding
  let attrs (o : Orientation) := (st.encoder o).candidates.workingSet
  have hnames (key) (hk : key ∈ guardedViews app) :
      (addOrientation printed deviceApps opt (encoder key.1)).2.constraints key.2 =
        names app key.1 (attrs key.1 key.2) :=
    addConstraintExprs_constraints (d := 0) (encoder key.1) (mem_guardedViews.mp hk).1
      (mem_guardedViews.mp hk).2
  have hmodels (w : Assignment K) : Models (st.oneShot printed deviceApps blocking opt) w ↔
      Common printed deviceApps blocking app attrs w ∧
      (opt = true → ∀ o, CostsHold printed app o (attrs o) w) ∧
      (∀ key ∈ guardedViews app, w.satisfied (satisfiedVar key) 0 = true →
        exactlyOne w.select (names app key.1 (attrs key.1 key.2)) = true) ∧
      ∀ key ∈ guardedViews app, w.satisfied (satisfiedVar key) 0 = true := by
    have hguards : (∀ o, Models (finishedAddingConstraints (convertViews app o 0)
          (addOrientation printed deviceApps opt (encoder o)).2) w) ↔
        ∀ key ∈ guardedViews app, w.satisfied (satisfiedVar key) 0 = true →
          exactlyOne w.select (names app key.1 (attrs key.1 key.2)) = true := by
      rw [models_finishedAdding_all, forall_round]
      exact forall₂_congr fun key hk => by rw [hnames key hk]; rfl
    rw [SingleQuery.oneShot, models_append, models_append, models_addConstraintsSingleQuery,
      hguards, models_getAllAssumptions]
    exact and_assoc.trans (and_congr_right fun _ => and_assoc)
  simp only [hmodels, common_blind]
  constructor
  · rintro ⟨cost, satisfied, hcommon, _, hone, hact⟩
    exact ⟨hcommon, fun key hk => hone key hk (hact key hk)⟩
  · rintro ⟨hcommon, hone⟩
    have hown (o : Orientation) (p : Nat) (_ : p ≠ 0) (_ : p < app.views.length)
        (attr : Attribute Prob) (ha : attr ∈ attrs o p) : attr.src = p :=
      (CandidateConstraints.getAttributes_proper ha).own
    obtain ⟨cost, hcost⟩ := exists_cost printed hown hsmall hone fun _ _ => true
    exact ⟨cost, fun _ _ => true, hcommon, fun _ => hcost, fun key hk _ => hone key hk,
      fun _ _ => rfl⟩

/-- After any number of rounds with any unsat cores, the incremental query and the query of the
fresh solver have the same models up to their auxiliary variables, so the second is satisfiable
whenever the first is. -/
theorem singleQuery_equisatisfiable (hsmall : app.views.length ≤ 1000)
    (cores : List (Orientation → List Nat)) (opt : Bool) :
    let st : SingleQuery app K :=
      .run printed deviceApps blocking (initialCandidates scorers) cores
    (∀ v : Assignment K, (∃ satisfied, Models st.query { v with satisfied := satisfied }) ↔
      ∃ cost satisfied, Models (st.oneShot printed deviceApps blocking opt)
        { v with cost := cost, satisfied := satisfied }) ∧
    (Sat st.query ↔ Sat (st.oneShot printed deviceApps blocking opt)) := by
  intro st
  obtain ⟨history, h⟩ := run_invariant printed deviceApps scorers blocking cores
  have hiff (v : Assignment K) :=
    (query_iff h hsmall v).trans
      (oneShot_iff printed deviceApps blocking st hsmall opt v).symm
  refine ⟨hiff, ?_⟩
  constructor
  · rintro ⟨v, hv⟩
    obtain ⟨cost, satisfied, hw⟩ := (hiff v).mp ⟨v.satisfied, hv⟩
    exact ⟨_, hw⟩
  · rintro ⟨v, hv⟩
    obtain ⟨satisfied, hw⟩ := (hiff v).mpr ⟨v.cost, v.satisfied, hv⟩
    exact ⟨_, hw⟩

end

/-- One device and one round whose core is the only view, with the cost maximised. -/
theorem singleQuery_equisatisfiable_sample :
    let st : SingleQuery sampleApp ℚ :=
      .run id [sampleApp] none (initialCandidates sampleCache) [fun _ => [1]]
    Sat st.query ↔ Sat (st.oneShot id [sampleApp] none true) :=
  (singleQuery_equisatisfiable id [sampleApp] sampleCache none (by decide) [fun _ => [1]] true).2

end InferUI
