import InferUI.Oracle

/-!
# The target apps of oracle synthesis

The second phase lays out screens that the first phase did not see. When each of them has the
frame of a screen the first phase laid out, or every candidate fits every frame, its model is
carried over.
-/

namespace InferUI
open Store CandidateConstraints
variable {Prob K : Type}

/-! ## Positions on the targets -/

/-- The device ids of `n` targets. -/
def IsTarget (n d : Nat) : Prop := 404 ≤ d ∧ d < 404 + n

instance (n d : Nat) : Decidable (IsTarget n d) := inferInstanceAs (Decidable (_ ∧ _))

/-- The positions `pos i` on target `i`, with the costs that the second phase also asserts. -/
def Assignment.onTargets (v : Assignment K) (o : Orientation) (n : Nat)
    (pos : Nat → Nat → Int × Int) (cost : Nat → K) : Assignment K :=
  { v with
    positionStart := fun u d =>
      if IsTarget n d then (pos (d - 404) (u - 1000 * o.toIndex)).1 else v.positionStart u d
    positionEnd := fun u d =>
      if IsTarget n d then (pos (d - 404) (u - 1000 * o.toIndex)).2 else v.positionEnd u d
    cost := cost
    satisfied := fun _ _ => true }

/-- Two assignments that only differ in costs, satisfied booleans and what is on a target. -/
structure Elsewhere (n : Nat) (v w : Assignment K) : Prop where
  start : ∀ u d, ¬ IsTarget n d → v.positionStart u d = w.positionStart u d
  «end» : ∀ u d, ¬ IsTarget n d → v.positionEnd u d = w.positionEnd u d
  margins : ∀ u, SameMargins u v w
  anchor : v.anchor = w.anchor
  select : v.select = w.select

theorem elsewhere_onTargets (v : Assignment K) (o : Orientation) (n : Nat)
    (pos : Nat → Nat → Int × Int) (cost : Nat → K) :
    Elsewhere n v (v.onTargets o n pos cost) where
  start _ _ hd := (if_neg hd).symm
  «end» _ _ hd := (if_neg hd).symm
  margins _ := ⟨rfl, rfl, rfl⟩
  anchor := rfl
  select := rfl

theorem hasPositions_onTargets (m : Nat) (v : Assignment K) (o : Orientation) {n i : Nat}
    (hi : i < n) (pos : Nat → Nat → Int × Int) (cost : Nat → K) :
    HasPositions m o (pos i) (v.onTargets o n pos cost) (404 + i) := by
  have htarget : IsTarget n (404 + i) := ⟨Nat.le_add_right 404 i, Nat.add_lt_add_left hi 404⟩
  have hindex : 404 + i - 404 = i := Nat.add_sub_cancel_left 404 i
  constructor <;> intro p _ <;>
    simp only [Assignment.onTargets, if_pos htarget, hindex, uniqueId_sub]

/-- A view that is not found has device id 0. -/
theorem findView_deviceId (device : App Prob) (o : Orientation) (d p : Nat) :
    (findView (convertViews device o d) p).deviceId = d ∨
      (findView (convertViews device o d) p).deviceId = 0 := by
  rw [findView, convertViews_getElem?]
  cases device.views[p]? with
  | none => exact .inr rfl
  | some view => exact .inl rfl

namespace Elsewhere
variable {n d : Nat} {v w : Assignment K} {device : App Prob} {o : Orientation}

theorem alike (h : Elsewhere n v w) (hd : ¬ IsTarget n d) (p : Nat) :
    (findView (convertViews device o d) p).Alike v (findView (convertViews device o d) p) w := by
  have hid : ¬ IsTarget n (findView (convertViews device o d) p).deviceId := by
    rcases findView_deviceId device o d p with heq | heq
    · rwa [heq]
    · rw [heq]
      exact fun htarget => absurd htarget.1 (by omega)
  refine ⟨rfl, fun s => ?_⟩
  cases s with
  | start => exact h.start _ _ hid
  | «end» => exact h.end _ _ hid

theorem positions (h : Elsewhere n v w) (device : App Prob) (o : Orientation)
    (hd : ¬ IsTarget n d) (p : Nat) :
    (findView (convertViews device o d) p).positionStart v =
        (findView (convertViews device o d) p).positionStart w ∧
      (findView (convertViews device o d) p).positionEnd v =
        (findView (convertViews device o d) p).positionEnd w :=
  ⟨(h.alike hd p).edge .start, (h.alike hd p).edge .end⟩

theorem assertPosition (h : Elsewhere n v w) (hd : ¬ IsTarget n d) (p : Nat) :
    Models (findView (convertViews device o d) p).assertPosition v ↔
      Models (findView (convertViews device o d) p).assertPosition w := by
  obtain ⟨hstart, hend⟩ := h.positions device o hd p
  simp only [Z3View.assertPosition, models_cons, hstart, hend, models_nil]

theorem assertKnownPositions (h : Elsewhere n v w) (hd : ¬ IsTarget n d) (m : Nat) :
    Models (assertKnownPositions m (convertViews device o d)) v ↔
      Models (InferUI.assertKnownPositions m (convertViews device o d)) w := by
  rw [InferUI.assertKnownPositions, models_flatMap, models_flatMap]
  apply forall₂_congr
  intro view hview
  obtain ⟨p, _, rfl⟩ := mem_convertViews.mp (List.mem_of_mem_take (List.mem_of_mem_drop hview))
  split
  · exact h.assertPosition hd p
  · simp only [models_nil]

theorem assertBlocked (h : Elsewhere n v w) (hd : ¬ IsTarget n d) :
    Models (assertBlocked (convertViews device o d)) v ↔
      Models (InferUI.assertBlocked (convertViews device o d)) w := by
  have hall : ((nonRoot (convertViews device o d)).all fun view =>
      decide (view.positionStart v = view.start) && decide (view.positionEnd v = view.end)) =
      (nonRoot (convertViews device o d)).all fun view =>
        decide (view.positionStart w = view.start) && decide (view.positionEnd w = view.end) := by
    rw [Bool.eq_iff_iff, List.all_eq_true, List.all_eq_true]
    apply forall₂_congr
    intro view hview
    obtain ⟨p, _, _, rfl⟩ := mem_nonRoot.mp hview
    obtain ⟨hstart, hend⟩ := h.positions device o hd p
    rw [hstart, hend]
  rw [InferUI.assertBlocked, models_append, models_append, assertRoot, h.assertPosition hd]
  simp only [models_cons, hall, models_nil]

end Elsewhere

section
variable [Field K] [LinearOrder K] [FloorRing K] {app : App Prob} {o : Orientation}
variable {printed : Prob → K} {deviceApps blockedApps : List (App Prob)}

def SameFrame (a b : App Prob) (o : Orientation) : Prop :=
  ∃ root root', a.views[0]? = some root ∧ b.views[0]? = some root' ∧
    root.startAt o = root'.startAt o ∧ root.endAt o = root'.endAt o

/-- The first phase lays the views out in the frame of `target`: that of the app, in which no view
has a negative size, or that of a device app with a known position. -/
def Seen (app : App Prob) (o : Orientation) (deviceApps : List (App Prob)) (target : App Prob) :
    Prop :=
  (SameFrame target app o ∧ ∀ view ∈ app.views, 0 ≤ view.size o) ∨
  ∃ d device, deviceApps[d]? = some device ∧
    hasFixedView (convertViews device o (d + 1)) = true ∧
    device.views.length = app.views.length ∧ SameFrame target device o

/-- Nothing that only the second phase asserts can fail. -/
structure PhasesAgree (scorer : ConstraintCache app o)
    (deviceApps blockedApps targetApps : List (App Prob)) (cores : List (List Nat)) : Prop where
  ids : ∀ i < targetApps.length, (blockedApps ≠ [] → 404 + i ≠ 4444) ∧
    ∀ d device, deviceApps[d]? = some device →
      hasFixedView (convertViews device o (d + 1)) = true → d + 1 ≠ 404 + i
  blocked : ∀ blocked ∈ blockedApps, ∀ p view, blocked.views[p]? = some view →
    ∀ attr ∈ (Oracle.finalCandidates scorer cores).getAttributes p,
      attr ∉ (Oracle.finalCandidates scorer []).getAttributes p →
      hasFixedView (blockedViews blocked o) = true ∧
        (attr.viewSize = .fixed → view.size o = (app.views[p]?).elim 0 (·.size o))
  target : ∀ target ∈ targetApps, target.views ≠ [] ∧ target.views.length = app.views.length ∧
    (Seen app o deviceApps target ∨ ∀ p, p ≠ 0 → p < app.views.length →
      ∀ attr ∈ (Oracle.finalCandidates scorer cores).getAttributes p, attr.Elastic)

/-! ## What the first phase leaves -/

theorem genAttribute_sizes {sizes sizes' : App Prob} {views : List Z3View} {attr : Attribute Prob}
    (h : attr.viewSize = .fixed → (sizes.views[(findView views attr.src).pos]?).elim 0 (·.size o) =
      (sizes'.views[(findView views attr.src).pos]?).elim 0 (·.size o)) :
    genAttribute sizes o views attr = (genAttribute sizes' o views attr : Expr K) := by
  by_cases hfixed : attr.viewSize = .fixed
  · simp only [genAttribute, h hfixed]
  · simp only [genAttribute, if_neg hfixed]

section
variable {scorer : ConstraintCache app o} {targetApps : List (App Prob)} {cores : List (List Nat)}
  {v : Assignment K}

/-- The first phase's model holds on the blocked apps with their own sizes. -/
theorem PhasesAgree.asserted (h : PhasesAgree scorer deviceApps blockedApps targetApps cores)
    (hv : Models (Oracle.run printed deviceApps blockedApps scorer cores).assertions v) :
    Asserted printed deviceApps blockedApps (HoldsSized o v)
      (Oracle.run printed deviceApps blockedApps scorer cores).encoder v := by
  have hset := Oracle.run_workingSet printed deviceApps blockedApps scorer cores
  obtain ⟨_, _, hrun⟩ := Oracle.run_asserted printed deviceApps blockedApps scorer cores
  have hasserted := hrun v hv
  refine { hasserted with blocked := ?_ }
  intro blocked hb p hp hlt attr hattr
  rcases hasserted.blocked blocked hb p hp hlt attr hattr with hsized | ⟨hnew, hround⟩
  · exact hsized
  · have hview := List.getElem?_eq_getElem hlt
    have hown : attr.src = p := (getAttributes_proper hattr).own
    rw [hown] at hnew
    obtain ⟨hfixedView, hsizes⟩ := h.blocked blocked hb p _ hview attr (hset ▸ hattr) hnew
    have hsame : genAttribute blocked o (blockedViews blocked o) attr =
        (genAttribute app o (blockedViews blocked o) attr : Expr K) := by
      apply genAttribute_sizes
      intro hfixed
      rw [hown, blockedViews, findView_pos hlt, hview]
      exact hsizes hfixed
    rw [HoldsSized, hsame]
    exact hround hfixedView

theorem Asserted.models_addSynAttributes {gen : App Prob → Attribute Prob → Prop}
    {enc : Encoder app o} {c : CandidateConstraints app o}
    (h : Asserted printed deviceApps blockedApps gen enc v)
    (hset : enc.candidates.workingSet = c.getAttributes) :
    Models (addSynAttributes printed (convertViews app o 0) c false) v :=
  InferUI.models_addSynAttributes.mpr fun p hp hlt attr hattr =>
    h.syn p hp hlt attr (hset ▸ hattr)

/-- Under the assumptions, every view but the root has one selected candidate. -/
theorem Asserted.exists_chosen {gen : App Prob → Attribute Prob → Prop} {enc : Encoder app o}
    {c : CandidateConstraints app o} (h : Asserted printed deviceApps blockedApps gen enc v)
    (hset : enc.candidates.workingSet = c.getAttributes)
    (hassume : Models (getAssumptions (convertViews app o 0) enc) v) {p : Nat} (hp : p ≠ 0)
    (hlt : p < app.views.length) (hnames : enc.constraints p = names app o (c.getAttributes p)) :
    ∃ attr, Chosen c v p attr := by
  have hone := exactlyOne_of_assumed h.finished hassume hp hlt
  rw [hnames] at hone
  exact exists_chosen_of h.anchor (h.models_addSynAttributes hset) hp hlt hone

/-- What the first phase checks selects one of the final candidates for each view. -/
theorem PhasesAgree.exists_chosen (h : PhasesAgree scorer deviceApps blockedApps targetApps cores)
    (hv : Models (Oracle.run printed deviceApps blockedApps scorer cores).query v) {p : Nat}
    (hp : p ≠ 0) (hlt : p < app.views.length) :
    ∃ attr, Chosen (Oracle.finalCandidates scorer cores) v p attr := by
  obtain ⟨hassertions, hassume⟩ := models_append.mp hv
  have hset := Oracle.run_workingSet printed deviceApps blockedApps scorer cores
  obtain ⟨hcomplete, _⟩ := Oracle.run_asserted printed deviceApps blockedApps scorer cores
  apply (h.asserted hassertions).exists_chosen hset hassume hp hlt
  rw [hcomplete.constraints p hp hlt, hset]

/-- Every target has positions for what the first phase selects. -/
theorem PhasesAgree.exists_positions [IsStrictOrderedRing K]
    (h : PhasesAgree scorer deviceApps blockedApps targetApps cores)
    (hv : Models (Oracle.run printed deviceApps blockedApps scorer cores).query v)
    {target : App Prob} (ht : target ∈ targetApps) :
    ∃ root pos, target.views[0]? = some root ∧ pos 0 = (root.startAt o, root.endAt o) ∧
      Carries app o (Oracle.finalCandidates scorer cores).getAttributes v pos := by
  obtain ⟨hassertions, _⟩ := models_append.mp hv
  have hset := Oracle.run_workingSet printed deviceApps blockedApps scorer cores
  have hasserted := h.asserted hassertions
  have hsyn := hasserted.models_addSynAttributes hset
  obtain ⟨hnonempty, _, hseen⟩ := h.target target ht
  obtain ⟨root, hroot⟩ : ∃ root, target.views[0]? = some root :=
    ⟨_, List.getElem?_eq_getElem (List.length_pos_iff.mpr hnonempty)⟩
  rcases hseen with hseen | helastic
  · rcases hseen with ⟨⟨root, root', hr, hr', hs, he⟩, hsize⟩ | ⟨d, device, hd, hfixed, hn, hsame⟩
    · refine ⟨root, positionsOn v o 0, hr, ?_, carries_reference hsize hasserted.position hsyn⟩
      rw [positionsOn_reference hasserted.position hr', hs, he]
    · obtain ⟨root, root', hr, hr', hs, he⟩ := hsame
      refine ⟨root, positionsOn v o (d + 1), hr, ?_, carries_device hn ?_⟩
      · rw [positionsOn_root hr' (hasserted.known d device hd hfixed).2, hs, he]
      · intro p hp hlt attr hattr
        exact hasserted.devices d device hd hfixed p hp hlt attr (hset ▸ hattr)
  · obtain ⟨pos, hpos, hcarries⟩ := exists_carries (fun p hp hlt => h.exists_chosen hv hp hlt)
      helastic (root.startAt o, root.endAt o)
    exact ⟨root, pos, hroot, hpos, hcarries⟩

/-- The same by the index of the target. -/
theorem PhasesAgree.exists_positions_at [IsStrictOrderedRing K]
    (h : PhasesAgree scorer deviceApps blockedApps targetApps cores)
    (hv : Models (Oracle.run printed deviceApps blockedApps scorer cores).query v) (i : Nat) :
    ∃ pos : Nat → Int × Int, ∀ target, targetApps[i]? = some target →
      ∃ root, target.views[0]? = some root ∧ pos 0 = (root.startAt o, root.endAt o) ∧
        Carries app o (Oracle.finalCandidates scorer cores).getAttributes v pos := by
  cases htarget : targetApps[i]? with
  | none => exact ⟨fun _ => (0, 0), fun _ hsome => by cases hsome⟩
  | some target =>
    obtain ⟨root, pos, hroot, hpos, hcarries⟩ :=
      h.exists_positions hv (List.mem_of_getElem? htarget)
    refine ⟨pos, fun target' hsome => ?_⟩
    cases hsome
    exact ⟨root, hroot, hpos, hcarries⟩

end

/-! ## The second phase's model -/

namespace Elsewhere
variable {n : Nat} {v w : Assignment K}

theorem attributeValue (h : Elsewhere n v w) {device : App Prob} {attr : Attribute Prob} {d p : Nat}
    (hproper : attr.Proper app.views.length o p) (hd : ¬ IsTarget n d)
    (hv : attributeValue (convertViews device o d) attr v = true) :
    InferUI.attributeValue (convertViews device o d) attr w = true :=
  attributeValue_alike hproper rfl (h.margins _) (fun t _ => h.alike hd t) hv

theorem genAttribute (h : Elsewhere n v w) {sizes device : App Prob} {attr : Attribute Prob}
    {d p : Nat} (hproper : attr.Proper app.views.length o p) (hd : ¬ IsTarget n d)
    (hv : genAttribute sizes o (convertViews device o d) attr v = true) :
    InferUI.genAttribute sizes o (convertViews device o d) attr w = true := by
  obtain ⟨hstart, hend⟩ := h.positions device o hd attr.src
  rw [InferUI.genAttribute, implies_eq_true] at hv ⊢
  intro hsel
  rw [← h.select] at hsel
  obtain ⟨hvalue, hsize⟩ := Bool.and_eq_true_iff.mp (hv hsel)
  rw [hstart, hend] at hsize
  exact Bool.and_eq_true_iff.mpr ⟨h.attributeValue hproper hd hvalue, hsize⟩

theorem synAttribute (h : Elsewhere n v w) {attr : Attribute Prob} {p : Nat}
    (hproper : attr.Proper app.views.length o p)
    (hv : Models (synAttribute printed (convertViews app o 0) false attr) v) :
    Models (InferUI.synAttribute printed (convertViews app o 0) false attr) w := by
  have hd : ¬ IsTarget n 0 := fun htarget => absurd htarget.1 (by omega)
  rw [models_synAttribute, ← h.select]
  rw [models_synAttribute] at hv
  refine ⟨fun hsel => ?_, fun hopt => by cases hopt⟩
  obtain ⟨hvalue, hanchor⟩ := hv.1 hsel
  refine ⟨h.attributeValue hproper hd hvalue, ?_⟩
  simpa only [anchorValue, Z3View.anchor, h.anchor] using hanchor

/-- What the first phase asserts is kept when no device id is that of a target. -/
theorem asserted (h : Elsewhere n v w) {enc enc' : Encoder app o}
    (hset : enc'.candidates.workingSet = enc.candidates.workingSet)
    (hdevices : ∀ d device, deviceApps[d]? = some device →
      hasFixedView (convertViews device o (d + 1)) = true → ¬ IsTarget n (d + 1))
    (hblocked : blockedApps ≠ [] → ¬ IsTarget n 4444)
    (hfinished : Models (finishedAddingConstraints (convertViews app o 0) enc') w)
    (hv : Asserted printed deviceApps blockedApps (HoldsSized o v) enc v) :
    Asserted printed deviceApps blockedApps (HoldsSized o w) enc' w := by
  have hd : ¬ IsTarget n 0 := fun htarget => absurd htarget.1 (by omega)
  have hproper {p : Nat} {attr : Attribute Prob} (hattr : attr ∈ enc'.candidates.workingSet p) :
      attr.Proper app.views.length o p := getAttributes_proper hattr
  refine ⟨?_, ?_, ?_, hfinished, ?_, ?_, ?_, ?_⟩
  · rw [models_addPositionConstraints]
    intro p view hp
    obtain ⟨hmargin, hposition, hbias⟩ := models_addPositionConstraints.mp hv.position p view hp
    obtain ⟨hms, hme, hb⟩ := h.margins (uniqueId p o)
    rw [← hms, ← hme, ← hb, ← h.start _ _ hd, ← h.end _ _ hd]
    exact ⟨hmargin, hposition, hbias⟩
  · rw [models_addAnchorConstraints, ← h.anchor]
    exact models_addAnchorConstraints.mp hv.anchor
  · intro p hp hlt attr hattr
    exact h.synAttribute (hproper hattr) (hv.syn p hp hlt attr (hset ▸ hattr))
  · intro d device hdevice hfixed
    obtain ⟨hknown, hroot⟩ := hv.known d device hdevice hfixed
    have hd := hdevices d device hdevice hfixed
    exact ⟨(h.assertKnownPositions hd _).mp hknown, (h.assertPosition hd 0).mp hroot⟩
  · intro d device hdevice hfixed p hp hlt attr hattr
    exact h.genAttribute (hproper hattr) (hdevices d device hdevice hfixed)
      (hv.devices d device hdevice hfixed p hp hlt attr (hset ▸ hattr))
  · intro blocked hb
    exact (h.assertBlocked (hblocked (List.ne_nil_of_mem hb))).mp (hv.notBlocked blocked hb)
  · intro blocked hb p hp hlt attr hattr
    exact h.genAttribute (hproper hattr) (hblocked (List.ne_nil_of_mem hb))
      (hv.blocked blocked hb p hp hlt attr (hset ▸ hattr))

end Elsewhere

section
variable {c : CandidateConstraints app o} {v : Assignment K}

/-- The cost of the candidate that a model selects for a view. -/
def selectedCost (printed : Prob → K) (c : CandidateConstraints app o) (v : Assignment K)
    (u : Nat) : K :=
  ((c.getAttributes (u - 1000 * o.toIndex)).find? fun attr =>
    v.select (attributeName (convertViews app o 0) attr)).elim 0 fun attr => printed attr.prob

theorem costsHold_onTargets (printed : Prob → K)
    (hchosen : ∀ p, p ≠ 0 → p < app.views.length → ∃ attr, Chosen c v p attr) (n : Nat)
    (pos : Nat → Nat → Int × Int) :
    CostsHold printed app o c.getAttributes (v.onTargets o n pos (selectedCost printed c v)) := by
  intro p hp hlt attr hattr hsel
  obtain ⟨chosen, hc⟩ := hchosen p hp hlt
  have hfind := congrArg List.head? hc.only
  rw [List.head?_filter, List.head?_cons] at hfind
  rw [(getAttributes_proper hattr).own, Z3View.cost, findView_uniqueId hlt, hc.unique hattr hsel]
  simp only [Assignment.onTargets, selectedCost, uniqueId_sub, hfind, Option.elim_some]

/-- One selected candidate for each view is what a fresh solver is told to find. -/
theorem models_finished_of_chosen {w : Assignment K}
    (hchosen : ∀ p, p ≠ 0 → p < app.views.length → ∃ attr, Chosen c v p attr)
    (hselect : w.select = v.select) :
    Models (finishedAddingConstraints (convertViews app o 0)
      ((Encoder.ofCandidates c).addConstraintExprs (convertViews app o 0))) w := by
  rw [finishedAddingConstraints, models_assertExactlyOne]
  intro p hp hlt _
  obtain ⟨attr, hc⟩ := hchosen p hp hlt
  have hnames := addConstraintExprs_constraints (d := 0) (Encoder.ofCandidates c) hp hlt
  rw [hnames, Encoder.ofCandidates, List.nil_append, exactlyOne_map, hselect]
  exact exactlyOne_iff.mpr ⟨attr, hc.only⟩

theorem models_addTargetApp {target : App Prob} {i : Nat} :
    Models (addTargetApp c target i) v ↔ Models (assertRoot (targetViews target o i)) v ∧
      Models (addGenAttributes (targetViews target o i) c) v := models_append

end

section
variable {scorer : ConstraintCache app o} {targetApps : List (App Prob)} {cores : List (List Nat)}

/-- The second phase asserts what the first phase left behind, and the targets. -/
theorem models_oneShot {opt : Bool} {v : Assignment K} :
    Models ((Oracle.run printed deviceApps blockedApps scorer cores).oneShot printed deviceApps
      blockedApps targetApps opt) v ↔
      let enc := (Encoder.ofCandidates (Oracle.finalCandidates scorer cores)).addConstraintExprs
        (convertViews app o 0)
      (Asserted printed deviceApps blockedApps (HoldsSized o v) enc v ∧ (opt = true →
        CostsHold printed app o (Oracle.finalCandidates scorer cores).getAttributes v)) ∧
      (∀ i target, targetApps[i]? = some target →
        Models (addTargetApp (Oracle.finalCandidates scorer cores) target i) v) ∧
      Models (getAssumptions (convertViews app o 0) enc) v := by
  have hcandidates := Oracle.run_candidates printed deviceApps blockedApps scorer cores
  have hfresh (p : Nat) : (Oracle.finalCandidates scorer cores).constraintsAdded p = 0 :=
    congrFun (congrArg constraintsAdded hcandidates.symm) p
  have hset := Oracle.finalCandidates_workingSet scorer cores
  rw [Oracle.oneShot, hcandidates, models_append, models_append,
    models_addOracleConstraints hfresh, models_flatMap_zipIdx, and_assoc, ← hset]
  rfl

/-- A satisfiable first phase has a satisfiable second phase. -/
theorem expected_sat [IsStrictOrderedRing K] (printed : Prob → K) (opt : Bool)
    (h : PhasesAgree scorer deviceApps blockedApps targetApps cores)
    (hsat : Sat (Oracle.run printed deviceApps blockedApps scorer cores).query) :
    Sat ((Oracle.run printed deviceApps blockedApps scorer cores).oneShot printed deviceApps
      blockedApps targetApps opt) := by
  obtain ⟨v, hv⟩ := hsat
  let c := Oracle.finalCandidates scorer cores
  have hset := Oracle.run_workingSet printed deviceApps blockedApps scorer cores
  have hfinal : c.workingSet = c.getAttributes := Oracle.finalCandidates_workingSet scorer cores
  have hasserted := h.asserted (models_append.mp hv).1
  have hchosen (p : Nat) (hp : p ≠ 0) (hlt : p < app.views.length) : ∃ attr, Chosen c v p attr :=
    h.exists_chosen hv hp hlt
  choose pos hpos using h.exists_positions_at hv
  let w := v.onTargets o targetApps.length pos (selectedCost printed c v)
  have helsewhere : Elsewhere targetApps.length v w := elsewhere_onTargets ..
  have hfinished := models_finished_of_chosen hchosen helsewhere.select.symm
  refine ⟨w, models_oneShot.mpr ⟨⟨?_, ?_⟩, ?_, ?_⟩⟩
  · refine helsewhere.asserted (hfinal.trans hset.symm) ?_ ?_ hfinished hasserted
    · intro d device hd hfixed ⟨hle, hlt⟩
      obtain ⟨_, hids⟩ := h.ids (d + 1 - 404) (by omega)
      have := hids d device hd hfixed
      omega
    · intro hne ⟨hle, hlt⟩
      exact (h.ids 4040 (by omega)).1 hne (by norm_num)
  · intro _
    exact costsHold_onTargets printed hchosen targetApps.length pos
  · intro i target htarget
    obtain ⟨root, hroot, hframe, hcarries⟩ := hpos i target htarget
    have hi := (List.getElem?_eq_some_iff.mp htarget).1
    rw [models_addTargetApp]
    exact hcarries.models (h.target target (List.mem_of_getElem? htarget)).2.1 hroot hframe rfl
      (fun _ => ⟨rfl, rfl, rfl⟩) (hasPositions_onTargets _ v o hi pos _)
  · exact models_assumeSatisfied.mpr fun _ _ _ => rfl

end
end

/-- The sample on a screen of another size. -/
def sampleWide (width left right : Int) : App ℚ :=
  .ofViews [⟨0, 0, width, 100, 0, 0, fun _ => none, fun _ => none⟩,
    ⟨left, 20, right, 60, 1, 0, fun _ => none, fun _ => none⟩]

/-- The view of the sample stretched inside the frame. -/
def stretchedModel : Assignment ℚ where
  positionStart u _ := if u = 1 then 10 else 0
  positionEnd u d := (if d = 1 then 200 else 100) - if u = 1 then 70 else 0
  marginStart u := if u = 1 then 10 else 0
  marginEnd u := if u = 1 then 70 else 0
  anchor u := if u = 0 then 0 else 1
  bias _ := 1 / 2
  cost _ := 0
  satisfied _ _ := true
  select name := decide (name = ⟨.l2lxr2r, .matchConstraint, .horizontal, 1, 0, 0⟩)

theorem phasesAgree_sample : PhasesAgree (sampleCache .horizontal) [sampleWide 200 10 130]
    [sampleWide 100 50 70] [sampleWide 200 (-1) (-1)] [[1]] where
  ids i hi := by
    obtain rfl : i = 0 := Nat.lt_one_iff.mp hi
    refine ⟨fun _ => by decide, fun d device hd _ => ?_⟩
    obtain rfl : d = 0 := Nat.lt_one_iff.mp (List.getElem?_eq_some_iff.mp hd).1
    decide
  blocked blocked hb p view hp attr hattr hnew := by
    obtain rfl := List.mem_singleton.mp hb
    obtain rfl | rfl : p = 0 ∨ p = 1 := by
      have hlt : p < 2 := (List.getElem?_eq_some_iff.mp hp).1
      omega
    · cases hp
      have hnone : (Oracle.finalCandidates (sampleCache .horizontal) [[1]]).getAttributes 0 =
          [] := by decide +kernel
      rw [hnone] at hattr
      cases hattr
    · cases hp
      exact ⟨by decide, fun _ => by decide⟩
  target target ht := by
    obtain rfl := List.mem_singleton.mp ht
    exact ⟨by decide, by decide,
      .inl (.inr ⟨0, _, rfl, by decide, by decide, _, _, rfl, rfl, rfl, rfl⟩)⟩

theorem expected_sat_sample :
    Sat ((Oracle.run id [sampleWide 200 10 130] [sampleWide 100 50 70] (sampleCache .horizontal)
      [[1]]).oneShot id [sampleWide 200 10 130] [sampleWide 100 50 70] [sampleWide 200 (-1) (-1)]
      true : List (Expr ℚ)) :=
  expected_sat id true phasesAgree_sample ⟨stretchedModel, by decide +kernel⟩

theorem sampleApp_stretches :
    ∀ attr ∈ (Oracle.finalCandidates (sampleCache .horizontal) []).getAttributes 1,
      attr.viewSize ≠ .fixed → attr.type.sides = (some .start, some .end) ∧
        attr.tgtPrimary = 0 ∧ attr.tgtSecondary = some 0 := by
  decide +kernel

/-- The view is stretched on the device, by margins that do not fit into the target. -/
theorem expected_sat_got_unsat :
    Sat (Oracle.run id [sampleWide 200 10 130] [] (sampleCache .horizontal) [] :
      Oracle _ _ ℚ).query ∧
    ¬ Sat ((Oracle.run id [sampleWide 200 10 130] [] (sampleCache .horizontal) []).oneShot id
      [sampleWide 200 10 130] [] [sampleWide 50 (-1) (-1)] false : List (Expr ℚ)) := by
  refine ⟨⟨stretchedModel, by decide +kernel⟩, ?_⟩
  rintro ⟨v, hv⟩
  obtain ⟨⟨h, _⟩, htargets, hassume⟩ := models_oneShot.mp hv
  obtain ⟨attr, hc⟩ := h.exists_chosen rfl hassume Nat.one_ne_zero Nat.one_lt_two
    (addConstraintExprs_constraints _ Nat.one_ne_zero Nat.one_lt_two)
  obtain ⟨hframe, hplaced⟩ := models_addTargetApp.mp (htargets 0 _ rfl)
  have hn : (sampleWide 200 10 130).views.length = sampleApp.views.length := rfl
  have hn' : (sampleWide 50 (-1) (-1)).views.length = sampleApp.views.length := rfl
  have hfixedView : hasFixedView (convertViews (sampleWide 200 10 130) .horizontal (0 + 1)) =
      true := by decide
  by_cases hsize : attr.viewSize = .fixed
  · obtain ⟨_, hdevice⟩ := genAttribute_sized hn hc.proper Nat.one_lt_two
      (h.devices 0 _ rfl hfixedView 1 Nat.one_ne_zero Nat.one_lt_two attr hc.mem) hc.selected
    have hknown := positionsOn_known (h.known 0 _ rfl hfixedView).1 Nat.one_ne_zero
      Nat.one_lt_two rfl (by decide) (by decide)
    rw [if_pos hsize, hknown] at hdevice
    exact absurd hdevice (by decide)
  · obtain ⟨hvalue, htarget⟩ := genAttribute_sized hn' hc.proper Nat.one_lt_two
      (models_addGenAttributes.mp hplaced 1 Nat.one_ne_zero Nat.one_lt_two attr hc.mem) hc.selected
    obtain ⟨hsides, hprimary, hsecondary⟩ := sampleApp_stretches attr hc.mem hsize
    have hreference := length_of_stretched rfl hc.proper Nat.one_lt_two hsize hsides hprimary
      hsecondary hc.value
    have hlength := length_of_stretched hn' hc.proper Nat.one_lt_two hsize hsides hprimary
      hsecondary hvalue
    have hat (p : Nat) (view : View ℚ) (hp : sampleApp.views[p]? = some view) :=
      positionsOn_reference h.position hp
    have hview : positionsOn v .horizontal 0 1 = (10, 30) := (hat 1 _ rfl).trans rfl
    have hroot : positionsOn v .horizontal 0 0 = (0, 100) := (hat 0 _ rfl).trans rfl
    have hnarrow : positionsOn v .horizontal (404 + 0) 0 = (0, 50) :=
      (positionsOn_root rfl hframe).trans rfl
    rw [hview, hroot] at hreference
    rw [if_neg hsize, hlength, hnarrow] at htarget
    simp only at hreference htarget
    omega

end InferUI
