import InferUI.AppChecks
import InferUI.Oracle
import InferUI.UserFeedback

/-!
# The two phases of multi-device synthesis

`GetSatConstraints` widens the working set of one incremental solver, for the reference and all
devices, until it is satisfiable. `SynthesizeMultiDeviceProb` asserts the final working set again
in a fresh solver, with the known positions and the robust assertions that were asserted before.
-/

namespace InferUI
open Store CandidateConstraints
variable {Prob K : Type}

section
variable {app : App Prob} {o : Orientation}

/-! ## The views that carry an exactly-one constraint -/

/-- The keys of the exactly-one constraints of one orientation. -/
def nonRootPositions (app : App Prob) : List Nat :=
  (List.range app.views.length).filter fun p => decide (p ≠ 0)

theorem mem_nonRootPositions {p : Nat} :
    p ∈ nonRootPositions app ↔ p ≠ 0 ∧ p < app.views.length := by
  rw [nonRootPositions, List.mem_filter, List.mem_range, decide_eq_true_eq, and_comm]

theorem uniqueId_injective (o : Orientation) :
    ∀ p ∈ nonRootPositions app, ∀ q ∈ nonRootPositions app,
      uniqueId p o = uniqueId q o → p = q := by
  intro p _ q _ h
  rw [uniqueId, uniqueId] at h
  omega

theorem models_finishedAdding {enc : Encoder app o} {v : Assignment K} :
    Models (finishedAddingConstraints (convertViews app o 0) enc) v ↔
      ∀ guard ∈ Store.round (nonRootPositions app) enc.satisfiedId enc.constraints,
        guard.Holds (uniqueId · o) v.satisfied v.select := by
  simp only [forall_round, mem_nonRootPositions, finishedAddingConstraints,
    models_assertExactlyOne, and_imp]

theorem models_getAssumptions {enc : Encoder app o} {v : Assignment K} :
    Models (getAssumptions (convertViews app o 0) enc) v ↔
      ∀ p ∈ nonRootPositions app, v.satisfied (uniqueId p o) (enc.satisfiedId p) = true := by
  simp only [getAssumptions, models_assumeSatisfied, mem_nonRootPositions, and_imp]

/-- The costs of the selected attributes, one for each view. -/
theorem exists_selectedCost [Zero K] {printed : Prob → K} {attrs : Nat → List (Attribute Prob)}
    (hown : ∀ p, ∀ attr ∈ attrs p, attr.src = p) {v : Assignment K}
    (hone : ∀ p ∈ nonRootPositions app, exactlyOne v.select (names app o (attrs p)) = true)
    (satisfied : Nat → Nat → Bool) :
    ∃ cost : Nat → K,
      CostsHold printed app o attrs { v with cost := cost, satisfied := satisfied } := by
  let selected (attr : Attribute Prob) : Bool :=
    v.select (attributeName (convertViews app o 0) attr)
  refine ⟨fun u => ((attrs (u - 1000 * o.toIndex)).find? selected).elim 0 fun attr =>
    printed attr.prob, ?_⟩
  intro p hp hlt attr hattr hsel
  have hunique := hone p (mem_nonRootPositions.mpr ⟨hp, hlt⟩)
  rw [names, exactlyOne_map] at hunique
  obtain ⟨chosen, _, _, huniq⟩ := exactlyOne_member hunique
  have hfind : (attrs p).find? selected = some attr := by
    cases hf : (attrs p).find? selected with
    | none => exact absurd hsel (List.find?_eq_none.mp hf attr hattr)
    | some found =>
      have hfound := huniq found (List.mem_of_find?_eq_some hf) (List.find?_some hf)
      rw [hfound, huniq attr hattr hsel]
  rw [hown p attr hattr, Z3View.cost, findView_uniqueId hlt]
  simp only [uniqueId_sub, hfind, Option.elim_some]

/-! ## Assertions about the layout only -/

/-- Two assignments that differ in costs, selections and activation variables only. -/
structure SameLayout (v w : Assignment K) : Prop where
  positionStart : v.positionStart = w.positionStart
  positionEnd : v.positionEnd = w.positionEnd
  marginStart : v.marginStart = w.marginStart
  marginEnd : v.marginEnd = w.marginEnd
  anchor : v.anchor = w.anchor
  bias : v.bias = w.bias

namespace SameLayout
variable {v w : Assignment K}

theorem blind (v : Assignment K) (cost : Nat → K) (satisfied : Nat → Nat → Bool) :
    SameLayout { v with cost := cost, satisfied := satisfied } v :=
  ⟨rfl, rfl, rfl, rfl, rfl, rfl⟩

theorem start_eq (h : SameLayout v w) (view : Z3View) :
    view.positionStart v = view.positionStart w :=
  congrFun (congrFun h.positionStart _) _

theorem end_eq (h : SameLayout v w) (view : Z3View) : view.positionEnd v = view.positionEnd w :=
  congrFun (congrFun h.positionEnd _) _

theorem sameEdges (h : SameLayout v w) (n : Nat) (views : List Z3View) :
    SameEdges n views v views w := by
  intro p _ s
  cases s with
  | start => exact h.start_eq _
  | «end» => exact h.end_eq _

theorem assertPosition (h : SameLayout v w) (view : Z3View) :
    Models view.assertPosition v ↔ Models view.assertPosition w := by
  simp only [Z3View.assertPosition, models_cons, models_nil, h.start_eq, h.end_eq]

theorem assertKnownPositions (h : SameLayout v w) (n : Nat) (views : List Z3View) :
    Models (assertKnownPositions n views) v ↔ Models (assertKnownPositions n views) w := by
  apply models_flatMap_congr
  intro view _
  split
  · exact h.assertPosition view
  · simp only [models_nil]

theorem addAnchorConstraints (h : SameLayout v w) :
    Models (addAnchorConstraints (convertViews app o 0)) v ↔
      Models (addAnchorConstraints (convertViews app o 0)) w := by
  rw [models_addAnchorConstraints, models_addAnchorConstraints, h.anchor]

theorem addRobust (h : SameLayout v w) (device : App Prob) (d : Nat) :
    Models (addRobust app o device d) v ↔ Models (addRobust app o device d) w := by
  have hsame (views : List Z3View) := h.sameEdges app.views.length views
  have hcenters : Models (assertKeepsCentering app (convertViews app o 0)
        (convertViews device o (d + 1))) v ↔
      Models (assertKeepsCentering app (convertViews app o 0)
        (convertViews device o (d + 1))) w := by
    rw [models_assertKeepsCentering, models_assertKeepsCentering]
    exact ⟨fun hv => hv.congr (hsame _),
      fun hw => hw.congr fun p hlt s => (hsame _ p hlt s).symm⟩
  have hratio : Models (if o = .horizontal then assertKeepsSizeRatio app (convertViews app o 0)
          (convertViews device o (d + 1)) device else []) v ↔
      Models (if o = .horizontal then assertKeepsSizeRatio app (convertViews app o 0)
          (convertViews device o (d + 1)) device else []) w := by
    split
    · exact assertKeepsSizeRatio_congr (hsame _) fun _ _ => rfl
    · simp only [models_nil]
  simp only [InferUI.addRobust, assertKeepsLook, models_append, models_assertSizeBounds,
    models_assertNotOutOfBounds, h.start_eq, h.end_eq]
  rw [assertKeepsIntersection_congr (hsame _), hcenters,
    assertKeepsMargins_congr (hsame _) (hsame _), hratio]

end SameLayout

end

section
variable [Field K] [LinearOrder K] [FloorRing K] {app : App Prob} {o : Orientation}

/-- The state of `GetSatConstraints` before each of its checks. -/
structure MultiDevice (app : App Prob) (o : Orientation) (K : Type) where
  encoder : Encoder app o
  assertions : List (Expr K)

namespace MultiDevice

def start (printed : Prob → K) (deviceApps : List (App Prob)) (userInput robust : Bool)
    (scorer : ConstraintCache app o) : MultiDevice app o K :=
  let enc := Encoder.ofCandidates ((ofScorer scorer).increaseRank 5)
  let views := convertViews app o 0
  let added := enc.addConstraintExprs views
  { encoder := added.finishAdding
    assertions := addPositionConstraints views true ++ addAnchorConstraints views ++
      addSynAttributes printed views enc.candidates false ++
      finishedAddingConstraints views added ++
      deviceApps.zipIdx.flatMap fun device =>
        addMultiDevice enc.candidates device.1 device.2 userInput robust }

/-- One round of the loop: the views of the unsat core get more candidates. -/
def round (printed : Prob → K) (deviceApps : List (App Prob)) (st : MultiDevice app o K)
    (core : List Nat) : MultiDevice app o K :=
  let more := addMoreConstraints printed deviceApps (Oracle.widen st.encoder core)
  { encoder := more.2, assertions := st.assertions ++ more.1 }

/-- The state after a round for each entry of `cores`. -/
def run (printed : Prob → K) (deviceApps : List (App Prob)) (userInput robust : Bool)
    (scorer : ConstraintCache app o) (cores : List (List Nat)) : MultiDevice app o K :=
  cores.foldl (round printed deviceApps) (start printed deviceApps userInput robust scorer)

/-- What is checked. -/
def query (st : MultiDevice app o K) : List (Expr K) :=
  st.assertions ++ getAssumptions (convertViews app o 0) st.encoder

/-- What `SynthesizeMultiDeviceProb` asserts, apart from the objective. -/
def oneShot (printed : Prob → K) (deviceApps : List (App Prob)) (userInput robust opt : Bool)
    (st : MultiDevice app o K) : List (Expr K) :=
  multiDeviceAssertions printed deviceApps userInput robust opt st.encoder.candidates.resetAdding

end MultiDevice

/-! ## What is asserted once -/

variable {printed : Prob → K} {deviceApps : List (App Prob)} {userInput robust : Bool}

/-- The assertions about a device that do not depend on the working set. -/
def addFrame (app : App Prob) (o : Orientation) (userInput robust : Bool) (device : App Prob)
    (deviceId : Nat) : List (Expr K) :=
  let views := convertViews device o (deviceId + 1)
  assertRoot views ++
    (if userInput = true then assertKnownPositions app.views.length views else []) ++
    if robust = true then addRobust app o device deviceId else []

/-- The assertions that do not depend on the working set, for all devices. -/
def frameAssertions (app : App Prob) (o : Orientation) (deviceApps : List (App Prob))
    (userInput robust : Bool) : List (Expr K) :=
  addPositionConstraints (convertViews app o 0) true ++
    addAnchorConstraints (convertViews app o 0) ++
    deviceApps.zipIdx.flatMap fun device => addFrame app o userInput robust device.1 device.2

omit [FloorRing K] in
theorem SameLayout.frameAssertions {v w : Assignment K} (h : SameLayout v w) :
    Models (frameAssertions app o deviceApps userInput robust) v ↔
      Models (frameAssertions app o deviceApps userInput robust) w := by
  rw [InferUI.frameAssertions, models_append, models_append, models_append, models_append,
    models_addPositionConstraints, models_addPositionConstraints, h.addAnchorConstraints,
    h.positionStart, h.positionEnd, h.marginStart, h.marginEnd, h.bias]
  apply and_congr Iff.rfl
  apply models_flatMap_congr
  intro device _
  simp only [addFrame, models_append, assertRoot]
  rw [h.assertPosition]
  cases userInput <;> cases robust <;>
    simp only [Bool.false_eq_true, ↓reduceIte, models_nil, h.addRobust, h.assertKnownPositions]

omit [FloorRing K] in
theorem models_frameAssertions {v : Assignment K} :
    Models (frameAssertions app o deviceApps userInput robust) v ↔
      (Models (addPositionConstraints (convertViews app o 0) true) v ∧
        Models (addAnchorConstraints (convertViews app o 0)) v) ∧
      ∀ d device, deviceApps[d]? = some device →
        Models (addFrame app o userInput robust device d) v := by
  rw [frameAssertions, models_append, models_append]
  exact and_congr Iff.rfl (models_flatMap_zipIdx (addFrame app o userInput robust))

/-- A device has its frame, and the candidates hold on it. -/
theorem models_addMultiDevices {c : CandidateConstraints app o} {v : Assignment K} :
    Models (deviceApps.zipIdx.flatMap fun device =>
        addMultiDevice c device.1 device.2 userInput robust) v ↔
      (∀ d device, deviceApps[d]? = some device →
        Models (addFrame app o userInput robust device d) v) ∧
      ∀ device ∈ deviceApps.zipIdx, ∀ p, p ≠ 0 → p < device.1.views.length →
        ∀ attr ∈ c.getAttributes p,
          genAttribute app o (convertViews device.1 o (device.2 + 1)) attr v = true := by
  have hsplit (device : App Prob × Nat) :
      Models (addMultiDevice c device.1 device.2 userInput robust) v ↔
        Models (addFrame app o userInput robust device.1 device.2) v ∧
        ∀ p, p ≠ 0 → p < device.1.views.length → ∀ attr ∈ c.getAttributes p,
          genAttribute app o (convertViews device.1 o (device.2 + 1)) attr v = true := by
    simp only [addMultiDevice, addFrame, models_append, models_addGenAttributes]
  rw [models_flatMap]
  simp only [hsplit, forall_and]
  apply and_congr _ Iff.rfl
  rw [← models_flatMap]
  exact models_flatMap_zipIdx (addFrame app o userInput robust)

theorem attributesHold_blind {attrs : Nat → List (Attribute Prob)} (v : Assignment K)
    (cost : Nat → K) (satisfied : Nat → Nat → Bool) :
    AttributesHold printed deviceApps app o attrs { v with cost := cost, satisfied := satisfied } ↔
      AttributesHold printed deviceApps app o attrs v := by
  simp only [AttributesHold, models_blind (blind_synAttribute _ _ _) v cost satisfied,
    blind_genAttribute _ _ _ _ v cost satisfied]

/-! ## The invariant of the rounds -/

namespace MultiDevice

/-- The assertions of the incremental solver: those about the current working set, and the
exactly-one constraints of every round. -/
structure Invariant (printed : Prob → K) (deviceApps : List (App Prob)) (userInput robust : Bool)
    (st : MultiDevice app o K) (history : List (Guard Nat ConstraintData)) : Prop where
  complete : st.encoder.Complete
  tracks : Tracks history (nonRootPositions app) st.encoder.satisfiedId st.encoder.constraints
  models : ∀ v, Models st.assertions v ↔
    Models (frameAssertions app o deviceApps userInput robust) v ∧
      AttributesHold printed deviceApps app o st.encoder.candidates.workingSet v ∧
      ∀ guard ∈ history, guard.Holds (uniqueId · o) v.satisfied v.select

variable (printed deviceApps userInput robust)

theorem start_invariant (scorer : ConstraintCache app o) :
    let st : MultiDevice app o K := start printed deviceApps userInput robust scorer
    Invariant printed deviceApps userInput robust st
      (Store.round (nonRootPositions app) st.encoder.satisfiedId st.encoder.constraints) where
  complete := Oracle.start_complete printed deviceApps [] scorer
  tracks := tracks_round _ _ _
  models v := by
    have hget : ((ofScorer scorer).increaseRank 5).getAttributes =
        ((ofScorer scorer).increaseRank 5).workingSet :=
      funext fun p => getAttributes_eq_workingSet rfl
    rw [← models_finishedAdding]
    simp only [start, models_append, models_frameAssertions, models_addMultiDevices,
      models_addSynAttributes, AttributesHold, Encoder.ofCandidates, hget]
    constructor
    · rintro ⟨⟨⟨hbase, hsyn⟩, hfinished⟩, hframe, hgen⟩
      exact ⟨⟨hbase, hframe⟩, ⟨hsyn, hgen⟩, hfinished⟩
    · rintro ⟨⟨hbase, hframe⟩, ⟨hsyn, hgen⟩, hfinished⟩
      exact ⟨⟨⟨hbase, hsyn⟩, hfinished⟩, hframe, hgen⟩

variable {printed deviceApps userInput robust}

/-- A round keeps the candidates in use and adds what it widens. -/
theorem round_workingSet {st : MultiDevice app o K} (h : st.encoder.Complete) (core : List Nat) :
    (st.round printed deviceApps core).encoder.candidates.workingSet = fun p =>
      st.encoder.candidates.workingSet p ++
        (Oracle.widen st.encoder core).candidates.getAttributes p :=
  funext fun p => (Oracle.widen_widens h core).candidates.workingSet (h.positive p)

theorem round_invariant {st : MultiDevice app o K} {history : List (Guard Nat ConstraintData)}
    (h : Invariant printed deviceApps userInput robust st history) (core : List Nat) :
    ∃ history', Invariant printed deviceApps userInput robust
      (st.round printed deviceApps core) history' := by
  have hwiden := Oracle.widen_widens h.complete core
  have hcomplete : (st.round printed deviceApps core).encoder.Complete :=
    h.complete.widen printed deviceApps hwiden
  refine ⟨history ++ Store.round (nonRootPositions app)
    (st.round printed deviceApps core).encoder.satisfiedId
    (st.round printed deviceApps core).encoder.constraints, hcomplete, ?_, ?_⟩
  · apply h.tracks.round hwiden.gen_le
    -- a view that keeps its activation variable has nothing new to add
    intro p hp hsame
    obtain ⟨hp, hlt⟩ := mem_nonRootPositions.mp hp
    have hnone := hwiden.candidates.rank_same (hwiden.same p hsame) (h.complete.positive p)
    have hset := hwiden.candidates.workingSet (h.complete.positive p)
    rw [hnone, List.append_nil] at hset
    rw [h.complete.constraints p hp hlt, hcomplete.constraints p hp hlt]
    exact congrArg (names app o) hset
  · intro v
    rw [round_workingSet h.complete core, attributesHold_append, List.forall_mem_append,
      ← models_finishedAdding]
    simp only [round, models_append, models_addMoreConstraints, h.models v]
    tauto

theorem run_invariant (printed : Prob → K) (deviceApps : List (App Prob))
    (userInput robust : Bool) (scorer : ConstraintCache app o) (cores : List (List Nat)) :
    ∃ history, Invariant printed deviceApps userInput robust
      (run printed deviceApps userInput robust scorer cores) history := by
  induction cores using List.reverseRecOn with
  | nil => exact ⟨_, start_invariant printed deviceApps userInput robust scorer⟩
  | append_singleton cores core ih =>
    obtain ⟨history, h⟩ := ih
    rw [run, List.foldl_append]
    exact round_invariant h core

/-! ## Both queries, without their auxiliary variables -/

/-- What both queries say of the variables they share. -/
def Shared (printed : Prob → K) (deviceApps : List (App Prob)) (userInput robust : Bool)
    (c : CandidateConstraints app o) (v : Assignment K) : Prop :=
  Models (frameAssertions app o deviceApps userInput robust) v ∧
    AttributesHold printed deviceApps app o c.workingSet v ∧
    ∀ p ∈ nonRootPositions app, exactlyOne v.select (names app o (c.workingSet p)) = true

theorem query_iff {st : MultiDevice app o K} {history : List (Guard Nat ConstraintData)}
    (h : Invariant printed deviceApps userInput robust st history) (v : Assignment K) :
    (∃ satisfied, Models st.query { v with satisfied := satisfied }) ↔
      Shared printed deviceApps userInput robust st.encoder.candidates v := by
  have hone : (∀ p ∈ nonRootPositions app,
        exactlyOne v.select (st.encoder.constraints p) = true) ↔
      ∀ p ∈ nonRootPositions app,
        exactlyOne v.select (names app o (st.encoder.candidates.workingSet p)) = true := by
    apply forall₂_congr
    intro p hp
    obtain ⟨hp, hlt⟩ := mem_nonRootPositions.mp hp
    rw [h.complete.constraints p hp hlt]
  rw [Shared, ← hone, ← h.tracks.activate_iff (uniqueId_injective o) v.select]
  simp only [← exists_and_left]
  apply exists_congr
  intro satisfied
  have hframe : Models (frameAssertions app o deviceApps userInput robust)
      { v with satisfied := satisfied } ↔
      Models (frameAssertions app o deviceApps userInput robust) v :=
    (SameLayout.blind v v.cost satisfied).frameAssertions
  have hattrs : AttributesHold printed deviceApps app o st.encoder.candidates.workingSet
      { v with satisfied := satisfied } ↔
      AttributesHold printed deviceApps app o st.encoder.candidates.workingSet v :=
    attributesHold_blind v v.cost satisfied
  rw [query, models_append, h.models, models_getAssumptions, hframe, hattrs]
  tauto

/-- The assertions of the second phase about candidates of which nothing was handed out. -/
theorem models_multiDeviceAssertions {opt : Bool} {c : CandidateConstraints app o}
    (hfresh : ∀ p, c.constraintsAdded p = 0) {v : Assignment K} :
    Models (multiDeviceAssertions printed deviceApps userInput robust opt c) v ↔
      Shared printed deviceApps userInput robust c v ∧
      (opt = true → CostsHold printed app o c.workingSet v) ∧
      ∀ p ∈ nonRootPositions app, v.satisfied (uniqueId p o) 0 = true := by
  have hget : c.getAttributes = c.workingSet :=
    funext fun p => getAttributes_eq_workingSet (hfresh p)
  have hnames (p : Nat) (hp : p ∈ nonRootPositions app) :
      ((Encoder.ofCandidates c).addConstraintExprs (convertViews app o 0)).constraints p =
        names app o (c.workingSet p) := by
    obtain ⟨hp, hlt⟩ := mem_nonRootPositions.mp hp
    rw [addConstraintExprs_constraints _ hp hlt, ← hget]
    rfl
  have hguards : (∀ guard ∈ Store.round (nonRootPositions app)
        ((Encoder.ofCandidates c).addConstraintExprs (convertViews app o 0)).satisfiedId
        ((Encoder.ofCandidates c).addConstraintExprs (convertViews app o 0)).constraints,
        guard.Holds (uniqueId · o) v.satisfied v.select) ↔
      ∀ p ∈ nonRootPositions app, v.satisfied (uniqueId p o) 0 = true →
        exactlyOne v.select (names app o (c.workingSet p)) = true := by
    rw [forall_round]
    exact forall₂_congr fun p hp => by rw [hnames p hp]; rfl
  have hsyn : Models (addSynAttributes printed (convertViews app o 0) c opt) v ↔
      (∀ p, p ≠ 0 → p < app.views.length → ∀ attr ∈ c.workingSet p,
        Models (synAttribute printed (convertViews app o 0) false attr) v) ∧
      (opt = true → CostsHold printed app o c.workingSet v) := by
    rw [models_addSynAttributes_opt, models_addSynAttributes, hget]
  rw [multiDeviceAssertions, selectionAssertions]
  simp only [models_append, models_addMultiDevices, hsyn, models_finishedAdding, hguards,
    models_getAssumptions, hget, Shared, models_frameAssertions, AttributesHold]
  constructor
  · rintro ⟨⟨hposition, ⟨⟨hanchor, hsyn, hcost⟩, hone⟩, hact⟩, hframe, hgen⟩
    exact ⟨⟨⟨⟨hposition, hanchor⟩, hframe⟩, ⟨hsyn, hgen⟩, fun p hp => hone p hp (hact p hp)⟩,
      hcost, hact⟩
  · rintro ⟨⟨⟨⟨hposition, hanchor⟩, hframe⟩, ⟨hsyn, hgen⟩, hone⟩, hcost, hact⟩
    exact ⟨⟨hposition, ⟨⟨hanchor, hsyn, hcost⟩, fun p hp _ => hone p hp⟩, hact⟩, hframe, hgen⟩

theorem shared_blind {c : CandidateConstraints app o} (v : Assignment K) (cost : Nat → K)
    (satisfied : Nat → Nat → Bool) :
    Shared printed deviceApps userInput robust c
        { v with cost := cost, satisfied := satisfied } ↔
      Shared printed deviceApps userInput robust c v := by
  rw [Shared, Shared, (SameLayout.blind v cost satisfied).frameAssertions, attributesHold_blind]

theorem oneShot_iff (st : MultiDevice app o K) (opt : Bool) (v : Assignment K) :
    (∃ cost satisfied, Models (st.oneShot printed deviceApps userInput robust opt)
      { v with cost := cost, satisfied := satisfied }) ↔
      Shared printed deviceApps userInput robust st.encoder.candidates v := by
  have hmodels (w : Assignment K) : Models (st.oneShot printed deviceApps userInput robust opt) w ↔
      Shared printed deviceApps userInput robust st.encoder.candidates w ∧
      (opt = true → CostsHold printed app o st.encoder.candidates.workingSet w) ∧
      ∀ p ∈ nonRootPositions app, w.satisfied (uniqueId p o) 0 = true :=
    models_multiDeviceAssertions fun _ => rfl
  simp only [hmodels, shared_blind]
  constructor
  · rintro ⟨_, _, hshared, _⟩
    exact hshared
  · intro hshared
    have hown (p : Nat) (attr : Attribute Prob)
        (hattr : attr ∈ st.encoder.candidates.workingSet p) : attr.src = p :=
      (getAttributes_proper hattr).own
    obtain ⟨cost, hcost⟩ := exists_selectedCost (o := o) hown hshared.2.2 fun _ _ => true
    exact ⟨cost, fun _ _ => true, hshared, fun _ => hcost, fun _ _ => rfl⟩

/-- After any number of rounds with any unsat cores, the query of the incremental solver and that
of the fresh one have the same models up to costs and activation variables. -/
theorem equisatisfiable (printed : Prob → K) (deviceApps : List (App Prob))
    (userInput robust opt : Bool) (scorer : ConstraintCache app o) (cores : List (List Nat)) :
    let st : MultiDevice app o K := run printed deviceApps userInput robust scorer cores
    (∀ v : Assignment K, (∃ satisfied, Models st.query { v with satisfied := satisfied }) ↔
      ∃ cost satisfied, Models (st.oneShot printed deviceApps userInput robust opt)
        { v with cost := cost, satisfied := satisfied }) ∧
    (Sat st.query ↔ Sat (st.oneShot printed deviceApps userInput robust opt)) := by
  intro st
  obtain ⟨history, h⟩ := run_invariant printed deviceApps userInput robust scorer cores
  have hiff (v : Assignment K) := (query_iff h v).trans (oneShot_iff st opt v).symm
  refine ⟨hiff, ?_⟩
  constructor
  · rintro ⟨v, hv⟩
    obtain ⟨cost, satisfied, hw⟩ := (hiff v).mp ⟨v.satisfied, hv⟩
    exact ⟨_, hw⟩
  · rintro ⟨v, hv⟩
    obtain ⟨satisfied, hw⟩ := (hiff v).mpr ⟨v.cost, v.satisfied, hv⟩
    exact ⟨_, hw⟩

end MultiDevice

end
end InferUI
