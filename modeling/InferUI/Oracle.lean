import InferUI.Equisat
import InferUI.Screens

/-!
# Oracle synthesis

One orientation, with device apps in which some positions are known, apps whose positions are
blocked, and target apps that are only laid out. `GetSatConstraintsOracle` widens the working set
of one incremental solver until it is satisfiable; `SynthesizeDeviceProbOracle` asserts the final
working set again in a fresh solver, together with the target apps.
-/

namespace InferUI
open Store CandidateConstraints
variable {Prob K : Type}

def hasFixedView (views : List Z3View) : Bool :=
  views.any fun view => decide (view.pos ≠ 0) && view.hasFixedPosition

/-- `addBlockingConstraints`. The boolean `x_empty_expr` that starts the conjunction is asserted
right after it, so it is left out. -/
def assertBlocked (views : List Z3View) : List (Expr K) :=
  assertRoot views ++ [fun v => !(nonRoot views).all fun view =>
    decide (view.positionStart v = view.start) && decide (view.positionEnd v = view.end)]

section
variable [Field K] [LinearOrder K] [FloorRing K] {app : App Prob} {o : Orientation}

/-- The loop body for one device. -/
def addOracleDevice (c : CandidateConstraints app o) (device : App Prob) (deviceId : Nat) :
    List (Expr K) :=
  if hasFixedView (convertViews device o (deviceId + 1)) = true then addDevice c device deviceId
  else []

/-- `AddGenAttributes` with the sizes of another app than that of the candidates. -/
def addSizedAttributes (sizes : App Prob) (views : List Z3View) (c : CandidateConstraints app o) :
    List (Expr K) :=
  (newAttributes views c).map (genAttribute sizes o views)

/-- All blocked apps have the same device id. -/
def blockedViews (blocked : App Prob) (o : Orientation) : List Z3View :=
  convertViews blocked o 4444

/-- The loop body for one blocked app, which takes the sizes from that app. -/
def addBlockedApp (c : CandidateConstraints app o) (blocked : App Prob) : List (Expr K) :=
  addSizedAttributes blocked (blockedViews blocked o) c ++ assertBlocked (blockedViews blocked o)

def targetViews (target : App Prob) (o : Orientation) (deviceId : Nat) : List Z3View :=
  convertViews target o (404 + deviceId)

/-- The loop body for one target app. -/
def addTargetApp (c : CandidateConstraints app o) (target : App Prob) (deviceId : Nat) :
    List (Expr K) :=
  assertRoot (targetViews target o deviceId) ++ addGenAttributes (targetViews target o deviceId) c

/-- What both functions assert of the app, the device apps and the blocked apps. -/
def addOracleConstraints (printed : Prob → K) (deviceApps blockedApps : List (App Prob))
    (opt : Bool) (enc : Encoder app o) : List (Expr K) :=
  let views := convertViews app o 0
  addPositionConstraints views true ++ addAnchorConstraints views ++
    addSynAttributes printed views enc.candidates opt ++
    finishedAddingConstraints views (enc.addConstraintExprs views) ++
    (deviceApps.zipIdx.flatMap fun device => addOracleDevice enc.candidates device.1 device.2) ++
    blockedApps.flatMap (addBlockedApp enc.candidates)

/-- The state of `GetSatConstraintsOracle` before each of its checks. -/
structure Oracle (app : App Prob) (o : Orientation) (K : Type) where
  encoder : Encoder app o
  assertions : List (Expr K)

namespace Oracle

/-- What a round widens. -/
def widen (enc : Encoder app o) (core : List Nat) : Encoder app o :=
  core.foldl (fun enc pos => enc.increaseRankOf pos 10) enc

def start (printed : Prob → K) (deviceApps blockedApps : List (App Prob))
    (scorer : ConstraintCache app o) : Oracle app o K :=
  let enc := Encoder.ofCandidates ((ofScorer scorer).increaseRank 5)
  { encoder := (enc.addConstraintExprs (convertViews app o 0)).finishAdding
    assertions := addOracleConstraints printed deviceApps blockedApps false enc }

/-- One round of the loop. A blocked app now gets the sizes of `app`, and only if some position
of it is known. -/
def round (printed : Prob → K) (deviceApps blockedApps : List (App Prob)) (st : Oracle app o K)
    (core : List Nat) : Oracle app o K :=
  let views := convertViews app o 0
  let enc := widen st.encoder core
  let added := (enc.addConstraintExprs views).finishAdding
  { encoder := added
    assertions := st.assertions ++ addSynAttributes printed views enc.candidates false ++
      (deviceApps.zipIdx.flatMap fun device =>
        let deviceViews := convertViews device.1 o (device.2 + 1)
        if hasFixedView deviceViews = true then addGenAttributes deviceViews enc.candidates
        else []) ++
      (blockedApps.flatMap fun blocked =>
        if hasFixedView (blockedViews blocked o) = true then
          addGenAttributes (blockedViews blocked o) enc.candidates
        else []) ++
      finishedAddingConstraints views added }

/-- The state after a round for each entry of `cores`. -/
def run (printed : Prob → K) (deviceApps blockedApps : List (App Prob))
    (scorer : ConstraintCache app o) (cores : List (List Nat)) : Oracle app o K :=
  cores.foldl (round printed deviceApps blockedApps)
    (start printed deviceApps blockedApps scorer)

/-- What is checked. -/
def query (st : Oracle app o K) : List (Expr K) :=
  st.assertions ++ getAssumptions (convertViews app o 0) st.encoder

/-- What `SynthesizeDeviceProbOracle` asserts, apart from the objective. -/
def oneShot (printed : Prob → K) (deviceApps blockedApps targetApps : List (App Prob))
    (opt : Bool) (st : Oracle app o K) : List (Expr K) :=
  let enc := Encoder.ofCandidates st.encoder.candidates.resetAdding
  addOracleConstraints printed deviceApps blockedApps opt enc ++
    (targetApps.zipIdx.flatMap fun target => addTargetApp enc.candidates target.1 target.2) ++
    getAssumptions (convertViews app o 0) (enc.addConstraintExprs (convertViews app o 0))

/-- The candidates in use after a round for each entry of `cores`. -/
def finalCandidates (scorer : ConstraintCache app o) (cores : List (List Nat)) :
    CandidateConstraints app o :=
  cores.foldl (fun c core => core.foldl (fun c pos => c.increaseRankOf pos 10) c)
    ((ofScorer scorer).increaseRank 5)

end Oracle

/-! ## What the first phase asserts -/

section
variable {printed : Prob → K} {deviceApps blockedApps : List (App Prob)}

/-- The meaning of the assertions about the working set of an encoder. `gen` is what is asserted
of the candidates on a blocked app. -/
structure Asserted (printed : Prob → K) (deviceApps blockedApps : List (App Prob))
    (gen : App Prob → Attribute Prob → Prop) (enc : Encoder app o) (v : Assignment K) : Prop where
  position : Models (addPositionConstraints (convertViews app o 0) true) v
  anchor : Models (addAnchorConstraints (convertViews app o 0)) v
  syn : ∀ p, p ≠ 0 → p < app.views.length → ∀ attr ∈ enc.candidates.workingSet p,
    Models (synAttribute printed (convertViews app o 0) false attr) v
  finished : Models (finishedAddingConstraints (convertViews app o 0) enc) v
  known : ∀ d device, deviceApps[d]? = some device →
    hasFixedView (convertViews device o (d + 1)) = true →
    Models (assertKnownPositions app.views.length (convertViews device o (d + 1))) v ∧
      Models (assertRoot (convertViews device o (d + 1))) v
  devices : ∀ d device, deviceApps[d]? = some device →
    hasFixedView (convertViews device o (d + 1)) = true →
    ∀ p, p ≠ 0 → p < device.views.length → ∀ attr ∈ enc.candidates.workingSet p,
      genAttribute app o (convertViews device o (d + 1)) attr v = true
  notBlocked : ∀ blocked ∈ blockedApps, Models (assertBlocked (blockedViews blocked o)) v
  blocked : ∀ blocked ∈ blockedApps, ∀ p, p ≠ 0 → p < blocked.views.length →
    ∀ attr ∈ enc.candidates.workingSet p, gen blocked attr

/-- What the first pass and the second phase assert on a blocked app. -/
def HoldsSized (o : Orientation) (v : Assignment K) (blocked : App Prob)
    (attr : Attribute Prob) : Prop :=
  genAttribute blocked o (blockedViews blocked o) attr v = true

/-- What the first phase asserts on a blocked app. A round asserts less of what it adds than the
first pass does of the first candidates. -/
def HoldsInRound (scorer : ConstraintCache app o) (v : Assignment K) (blocked : App Prob)
    (attr : Attribute Prob) : Prop :=
  HoldsSized o v blocked attr ∨
    attr ∉ (Oracle.finalCandidates scorer []).workingSet attr.src ∧
      (hasFixedView (blockedViews blocked o) = true →
        genAttribute app o (blockedViews blocked o) attr v = true)

theorem Asserted.mono {gen gen' : App Prob → Attribute Prob → Prop} {enc : Encoder app o}
    {v : Assignment K} (h : Asserted printed deviceApps blockedApps gen enc v)
    (hgen : ∀ blocked ∈ blockedApps, ∀ p, ∀ attr ∈ enc.candidates.workingSet p,
      gen blocked attr → gen' blocked attr) :
    Asserted printed deviceApps blockedApps gen' enc v :=
  { h with
    blocked := fun blocked hb p hp hlt attr hattr =>
      hgen blocked hb p attr hattr (h.blocked blocked hb p hp hlt attr hattr) }

theorem models_addSizedAttributes {sizes device : App Prob} {d : Nat}
    {c : CandidateConstraints app o} {v : Assignment K} :
    Models (addSizedAttributes sizes (convertViews device o d) c) v ↔
      ∀ p, p ≠ 0 → p < device.views.length → ∀ attr ∈ c.getAttributes p,
        genAttribute sizes o (convertViews device o d) attr v = true := by
  rw [addSizedAttributes, models_map]
  simp only [mem_newAttributes]
  constructor
  · intro h p hp hlt attr ha
    exact h attr ⟨p, hp, hlt, ha⟩
  · rintro h attr ⟨p, hp, hlt, ha⟩
    exact h p hp hlt attr ha

/-- The assertions of a fresh solver about a working set of which nothing was handed out. -/
theorem models_addOracleConstraints {opt : Bool} {enc : Encoder app o} {v : Assignment K}
    (hfresh : ∀ p, enc.candidates.constraintsAdded p = 0) :
    Models (addOracleConstraints printed deviceApps blockedApps opt enc) v ↔
      Asserted printed deviceApps blockedApps (HoldsSized o v)
        (enc.addConstraintExprs (convertViews app o 0)) v ∧
      (opt = true → CostsHold printed app o enc.candidates.workingSet v) := by
  have hget : enc.candidates.getAttributes = enc.candidates.workingSet :=
    funext fun p => getAttributes_eq_workingSet (hfresh p)
  have hdevices : Models (deviceApps.zipIdx.flatMap fun device =>
      addOracleDevice enc.candidates device.1 device.2) v ↔
      ∀ d device, deviceApps[d]? = some device →
        Models (addOracleDevice enc.candidates device d) v :=
    models_flatMap_zipIdx (addOracleDevice enc.candidates)
  rw [addOracleConstraints, models_append, models_append, models_append, models_append,
    models_append, hdevices, models_flatMap, models_addSynAttributes_opt,
    models_addSynAttributes, hget]
  constructor
  · rintro ⟨⟨⟨⟨⟨hposition, hanchor⟩, hsyn, hcost⟩, hfinished⟩, hdevice⟩, hblocked⟩
    refine ⟨⟨hposition, hanchor, hsyn, hfinished, ?_, ?_, ?_, ?_⟩, hcost⟩
    · intro d device hd hfixed
      have := hdevice d device hd
      rw [addOracleDevice, if_pos hfixed, addDevice, models_append, models_append] at this
      exact this.1
    · intro d device hd hfixed p hp hlt attr hattr
      have := hdevice d device hd
      rw [addOracleDevice, if_pos hfixed, addDevice, models_append, models_addGenAttributes,
        hget] at this
      exact this.2 p hp hlt attr hattr
    · intro blocked hb
      have := hblocked blocked hb
      rw [addBlockedApp, models_append] at this
      exact this.2
    · intro blocked hb p hp hlt attr hattr
      have := hblocked blocked hb
      rw [addBlockedApp, models_append, blockedViews, models_addSizedAttributes, hget] at this
      exact this.1 p hp hlt attr hattr
  · rintro ⟨h, hcost⟩
    refine ⟨⟨⟨⟨⟨h.position, h.anchor⟩, h.syn, hcost⟩, h.finished⟩, ?_⟩, ?_⟩
    · intro d device hd
      rw [addOracleDevice]
      split
      · rename_i hfixed
        rw [addDevice, models_append, models_append, models_addGenAttributes, hget]
        exact ⟨h.known d device hd hfixed, h.devices d device hd hfixed⟩
      · exact models_nil v
    · intro blocked hb
      rw [addBlockedApp, models_append, blockedViews, models_addSizedAttributes, hget]
      exact ⟨h.blocked blocked hb, h.notBlocked blocked hb⟩

namespace Oracle
variable {scorer : ConstraintCache app o}

theorem widen_widens {enc : Encoder app o} (h : enc.Complete) (core : List Nat) :
    enc.Widens (widen enc core) := by
  have hrefl : enc.Widens enc := ⟨.refl h.added, rfl, fun _ => le_rfl, fun _ _ => rfl⟩
  exact hrefl.foldl id 10 core

theorem start_complete (printed : Prob → K) (deviceApps blockedApps : List (App Prob))
    (scorer : ConstraintCache app o) :
    (start printed deviceApps blockedApps scorer).encoder.Complete := by
  refine ⟨rfl, fun p => Nat.succ_pos 4, ?_⟩
  intro p hp hlt
  let c : CandidateConstraints app o := (ofScorer scorer).increaseRank 5
  have hget : c.getAttributes p = c.workingSet p := getAttributes_eq_workingSet rfl
  have hnew := addConstraintExprs_constraints (d := 0) (Encoder.ofCandidates c) hp hlt
  exact hnew.trans (congrArg (names app o) hget)

theorem round_complete {st : Oracle app o K} (h : st.encoder.Complete) (core : List Nat) :
    (st.round printed deviceApps blockedApps core).encoder.Complete :=
  h.widen printed deviceApps (widen_widens h core)

/-- A round keeps the candidates in use and adds what it widens. -/
theorem round_workingSet {st : Oracle app o K} (h : st.encoder.Complete) (printed : Prob → K)
    (deviceApps blockedApps : List (App Prob)) (core : List Nat) (p : Nat) :
    (st.round printed deviceApps blockedApps core).encoder.candidates.workingSet p =
      st.encoder.candidates.workingSet p ++ (widen st.encoder core).candidates.getAttributes p :=
  (widen_widens h core).candidates.workingSet (h.positive p)

/-- Before the first round, every candidate has the sizes of each blocked app on it. -/
theorem start_asserted {v : Assignment K}
    (h : Models (start printed deviceApps blockedApps scorer).assertions v) :
    Asserted printed deviceApps blockedApps (HoldsSized o v)
      (start printed deviceApps blockedApps scorer).encoder v := by
  have hfirst := ((models_addOracleConstraints fun _ => rfl).mp h).1
  exact { hfirst with }

/-- A round adds what it widens, in its own way on the blocked apps. -/
theorem round_asserted {st : Oracle app o K} (hcomplete : st.encoder.Complete)
    {core : List Nat} {v : Assignment K}
    (hfirst : ∀ p, ∀ attr ∈ (finalCandidates scorer []).workingSet p,
      attr ∈ st.encoder.candidates.workingSet p)
    (hbefore : Models st.assertions v →
      Asserted printed deviceApps blockedApps (HoldsInRound scorer v) st.encoder v)
    (h : Models (st.round printed deviceApps blockedApps core).assertions v) :
    Asserted printed deviceApps blockedApps (HoldsInRound scorer v)
      (st.round printed deviceApps blockedApps core).encoder v := by
  have hdevices (c : CandidateConstraints app o) : Models (deviceApps.zipIdx.flatMap fun device =>
        let deviceViews := convertViews device.1 o (device.2 + 1)
        if hasFixedView deviceViews = true then addGenAttributes deviceViews c else []) v ↔
      ∀ d device, deviceApps[d]? = some device → Models (
        if hasFixedView (convertViews device o (d + 1)) = true then
          addGenAttributes (convertViews device o (d + 1)) c else []) v :=
    models_flatMap_zipIdx fun device d =>
      if hasFixedView (convertViews device o (d + 1)) = true then
        addGenAttributes (convertViews device o (d + 1)) c else []
  rw [round, models_append, models_append, models_append, models_append, hdevices, models_flatMap,
    models_addSynAttributes] at h
  obtain ⟨⟨⟨⟨hold, hsyn⟩, hdevice⟩, hblocked⟩, hfinished⟩ := h
  have hasserted := hbefore hold
  have hset := round_workingSet hcomplete printed deviceApps blockedApps core
  refine ⟨hasserted.position, hasserted.anchor, ?_, hfinished, hasserted.known, ?_,
    hasserted.notBlocked, ?_⟩
  · intro p hp hlt attr hattr
    rw [hset, List.mem_append] at hattr
    rcases hattr with hattr | hattr
    · exact hasserted.syn p hp hlt attr hattr
    · exact hsyn p hp hlt attr hattr
  · intro d device hd hfixed p hp hlt attr hattr
    rw [hset, List.mem_append] at hattr
    rcases hattr with hattr | hattr
    · exact hasserted.devices d device hd hfixed p hp hlt attr hattr
    · have hnew := hdevice d device hd
      rw [if_pos hfixed] at hnew
      exact models_addGenAttributes.mp hnew p hp hlt attr hattr
  · intro blocked hb p hp hlt attr hattr
    rw [hset, List.mem_append] at hattr
    rcases hattr with hattr | hattr
    · exact hasserted.blocked blocked hb p hp hlt attr hattr
    · by_cases hold : attr ∈ (finalCandidates scorer []).workingSet p
      · exact hasserted.blocked blocked hb p hp hlt attr (hfirst p attr hold)
      · have hown : attr.src = p := (getAttributes_proper hattr).own
        refine .inr ⟨hown.symm ▸ hold, fun hfixed => ?_⟩
        have hnew := hblocked blocked hb
        rw [if_pos hfixed] at hnew
        exact models_addGenAttributes.mp hnew p hp hlt attr hattr

theorem run_asserted (printed : Prob → K) (deviceApps blockedApps : List (App Prob))
    (scorer : ConstraintCache app o) (cores : List (List Nat)) :
    let st := run printed deviceApps blockedApps scorer cores
    st.encoder.Complete ∧
      (∀ p, ∀ attr ∈ (finalCandidates scorer []).workingSet p,
        attr ∈ st.encoder.candidates.workingSet p) ∧
      ∀ v, Models st.assertions v →
        Asserted printed deviceApps blockedApps (HoldsInRound scorer v) st.encoder v := by
  induction cores using List.reverseRecOn with
  | nil =>
    refine ⟨start_complete printed deviceApps blockedApps scorer, fun _ _ h => h, fun v h => ?_⟩
    exact (start_asserted h).mono fun _ _ _ _ _ hsized => .inl hsized
  | append_singleton cores core ih =>
    obtain ⟨hcomplete, hfirst, hasserted⟩ := ih
    rw [run, List.foldl_append]
    refine ⟨round_complete hcomplete core, ?_, fun v h => ?_⟩
    · intro p attr hattr
      have hset := round_workingSet hcomplete printed deviceApps blockedApps core p
      exact hset ▸ List.mem_append_left _ (hfirst p attr hattr)
    · exact round_asserted hcomplete hfirst (hasserted v) h

theorem resetAdding_widen (enc : Encoder app o) (core : List Nat) :
    (widen enc core).candidates.resetAdding =
      core.foldl (fun c pos => c.increaseRankOf pos 10) enc.candidates.resetAdding := by
  rw [widen]
  induction core generalizing enc with
  | nil => rfl
  | cons pos rest ih => exact ih (enc.increaseRankOf pos 10)

theorem run_candidates (printed : Prob → K) (deviceApps blockedApps : List (App Prob))
    (scorer : ConstraintCache app o) (cores : List (List Nat)) :
    (run printed deviceApps blockedApps scorer cores).encoder.candidates.resetAdding =
      finalCandidates scorer cores := by
  induction cores using List.reverseRecOn with
  | nil => rfl
  | append_singleton cores core ih =>
    rw [finalCandidates, List.foldl_append, List.foldl_cons, List.foldl_nil, ← finalCandidates,
      ← ih, ← resetAdding_widen, run, List.foldl_append]
    rfl

theorem finalCandidates_workingSet (scorer : ConstraintCache app o) (cores : List (List Nat)) :
    (finalCandidates scorer cores).workingSet = (finalCandidates scorer cores).getAttributes := by
  have hfresh : (finalCandidates scorer cores).constraintsAdded = fun _ => 0 := by
    apply List.foldlRecOn (motive := fun c => constraintsAdded c = fun _ => 0) cores _ rfl
    intro c hc core _
    exact List.foldlRecOn (motive := fun c => constraintsAdded c = fun _ => 0) core _ hc
      fun _ h _ _ => h
  exact (funext fun p => getAttributes_eq_workingSet (congrFun hfresh p)).symm

theorem run_workingSet (printed : Prob → K) (deviceApps blockedApps : List (App Prob))
    (scorer : ConstraintCache app o) (cores : List (List Nat)) :
    (run printed deviceApps blockedApps scorer cores).encoder.candidates.workingSet =
      (finalCandidates scorer cores).getAttributes := by
  rw [← run_candidates printed deviceApps blockedApps scorer cores]
  rfl

end Oracle

end
end
end InferUI
