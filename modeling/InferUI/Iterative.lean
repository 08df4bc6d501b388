import InferUI.Blocking

/-!
# Iterative synthesis

`SynthesizeLayoutIterative` places the views of an app one at a time. Each iteration enumerates
candidates for one more view; the views placed before are kept where they are as long as each of
their coordinates is known, and -1 stands for an unknown one.
-/

namespace InferUI
open Store
variable {Prob K : Type}

/-- `GetViews().push_back(view)`, for the view of the same place in another app. -/
def App.pushView (app : App Prob) (view : View Prob) : App Prob where
  views := app.views ++ [{ view with pos := app.views.length }]
  pos_eq := by
    intro p w h
    rw [List.getElem?_append] at h
    split at h
    · exact app.pos_eq p w h
    · rename_i hp
      obtain ⟨hlt, rfl⟩ := List.getElem?_eq_some_iff.mp h
      rw [List.length_singleton] at hlt
      simp only [List.getElem_singleton]
      omega

def App.empty (Prob : Type) : App Prob := .ofViews []

/-- `cur_app` and `cur_device_apps`. -/
structure Iterative (Prob : Type) where
  app : App Prob
  deviceApps : List (App Prob)

namespace Iterative

def start (deviceApps : List (App Prob)) : Iterative Prob :=
  ⟨.empty Prob, deviceApps.map fun _ => .empty Prob⟩

/-- The next view of the app and of each device. -/
def push (cur : Iterative Prob) (app : App Prob) (deviceApps : List (App Prob)) (viewId : Nat) :
    Iterative Prob where
  app := (app.views[viewId]?).elim cur.app cur.app.pushView
  deviceApps := cur.deviceApps.mapIdx fun d device =>
    (viewAt deviceApps d viewId).elim device device.pushView

theorem viewAt_push {cur : Iterative Prob} {app : App Prob} {deviceApps : List (App Prob)}
    {viewId d p : Nat} {view : View Prob} (h : viewAt cur.deviceApps d p = some view) :
    viewAt (cur.push app deviceApps viewId).deviceApps d p = some view := by
  obtain ⟨device, hd, hview⟩ := Option.bind_eq_some_iff.mp h
  rw [viewAt, push, List.getElem?_mapIdx, hd]
  cases viewAt deviceApps d viewId with
  | none => exact hview
  | some pushed =>
    have hlt := (List.getElem?_eq_some_iff.mp hview).1
    simpa [App.pushView, List.getElem?_append_left hlt] using hview

end Iterative

/-- The coordinates of a view of a device. -/
def positionAt (deviceApps : List (App Prob)) (d p : Nat) : Option (Int × Int × Int × Int) :=
  (viewAt deviceApps d p).map View.position

/-- An iteration: what it starts from, the candidates it hands to `candidate_cb`, and what it
leaves. -/
structure Placing (Prob : Type) where
  viewId : Nat
  before : Iterative Prob
  candidates : List (App Prob × List (App Prob))
  after : Iterative Prob

section
variable [Field K] [LinearOrder K] [FloorRing K] [Zero Prob]

/-- An iteration that goes on to the next view. Either `candidate_cb` selects the last candidate,
or `predict_cb` returns device apps in which the earlier views are those of the candidates. -/
structure Places (printed : Prob → K)
    (scorers : (app : App Prob) → (o : Orientation) → ConstraintCache app o) (app : App Prob)
    (deviceApps : List (App Prob)) (opt : Bool) (maxCandidates : Nat) (step : Placing Prob) :
    Prop where
  nonempty : step.candidates ≠ []
  bounded : step.candidates.length ≤ max 1 maxCandidates
  run : let cur := step.before.push app deviceApps step.viewId
    ∃ st, Enumerates printed (scorers cur.app) cur.deviceApps opt step.candidates st ∧
      step.after.app = st.app ∧
      (step.after.deviceApps = st.deviceApps ∨ ∀ candidate ∈ step.candidates, ∀ d p,
        p < step.viewId → positionAt step.after.deviceApps d p = positionAt candidate.2 d p)

/-- A run of the loop, with its iterations. View 0 is only pushed. -/
inductive Iterates (printed : Prob → K)
    (scorers : (app : App Prob) → (o : Orientation) → ConstraintCache app o) (app : App Prob)
    (deviceApps : List (App Prob)) (opt : Bool) (maxCandidates : Nat) :
    List (Placing Prob) → Iterative Prob → Prop
  | start : Iterates printed scorers app deviceApps opt maxCandidates []
      ((Iterative.start deviceApps).push app deviceApps 0)
  | next {history : List (Placing Prob)} {cur : Iterative Prob} {step : Placing Prob}
      (run : Iterates printed scorers app deviceApps opt maxCandidates history cur)
      (places : Places printed scorers app deviceApps opt maxCandidates step)
      (before : step.before = cur) (viewId : step.viewId = history.length + 1)
      (view : step.viewId < app.views.length) :
      Iterates printed scorers app deviceApps opt maxCandidates (history ++ [step]) step.after

end

/-- No view placed in an earlier iteration has a coordinate -1. -/
def Placing.AllKnown (step : Placing Prob) : Prop :=
  ∀ d p view, 0 < p → p < step.viewId → viewAt step.before.deviceApps d p = some view →
    view.hasFixedPosition = true

/-- Each candidate has the views of the earlier iterations where the last of them left them. -/
def Placing.Keeps (step : Placing Prob) : Prop :=
  ∀ candidate ∈ step.candidates, ∀ d p position, 0 < p → p < step.viewId →
    positionAt step.before.deviceApps d p = some position →
    positionAt candidate.2 d p = some position

section
variable [Field K] [LinearOrder K] [FloorRing K] [Zero Prob] {app : App Prob}
variable {printed : Prob → K} {deviceApps : List (App Prob)} {opt : Bool}

/-- A candidate keeps every view of the call that has a fixed position. -/
theorem Enumerates.keeps {scorers : (o : Orientation) → ConstraintCache app o}
    {candidates : List (App Prob × List (App Prob))} {st : CandidateLoop Prob}
    (run : Enumerates printed scorers deviceApps opt candidates st)
    {candidate : App Prob × List (App Prob)} (hc : candidate ∈ candidates) {d p : Nat}
    {view : View Prob} (hview : viewAt deviceApps d p = some view)
    (hfixed : view.hasFixedPosition = true) : viewAt candidate.2 d p = some view := by
  obtain ⟨v, hv⟩ := run.recorded.answers candidate hc
  have hunlisted : (d, p) ∉ (BlockingConstraintsHelper.ofDevices deviceApps).emptyViewIndices := by
    intro hmem
    obtain ⟨_, w, hw, hfree⟩ := BlockingConstraintsHelper.mem_ofDevices.mp hmem
    obtain rfl := Option.some.inj (hview.symm.trans hw)
    rw [hfixed] at hfree
    cases hfree
  rw [hv, viewAt_answer, hview, Option.map_some, if_neg hunlisted]

/-- The last candidate is what the loop leaves. -/
theorem Enumerates.last {scorers : (o : Orientation) → ConstraintCache app o}
    {candidates : List (App Prob × List (App Prob))} {st : CandidateLoop Prob}
    (run : Enumerates printed scorers deviceApps opt candidates st) (h : candidates ≠ []) :
    st.candidate ∈ candidates := by
  cases run with
  | start => exact absurd rfl h
  | next => simp

variable {scorers : (app : App Prob) → (o : Orientation) → ConstraintCache app o}
variable {maxCandidates : Nat}

theorem Places.keeps {step : Placing Prob}
    (h : Places printed scorers app deviceApps opt maxCandidates step) (hknown : step.AllKnown) :
    step.Keeps := by
  intro candidate hc d p position hp hlt hposition
  obtain ⟨st, run, _⟩ := h.run
  obtain ⟨view, hview, rfl⟩ := Option.map_eq_some_iff.mp hposition
  rw [positionAt, run.keeps hc (Iterative.viewAt_push hview) (hknown d p view hp hlt hview)]
  rfl

/-- So does what the iteration leaves. -/
theorem Places.after_keeps {step : Placing Prob}
    (h : Places printed scorers app deviceApps opt maxCandidates step) (hkeeps : step.Keeps)
    {d p : Nat} {position : Int × Int × Int × Int} (hp : 0 < p) (hlt : p < step.viewId)
    (hposition : positionAt step.before.deviceApps d p = some position) :
    positionAt step.after.deviceApps d p = some position := by
  obtain ⟨st, run, _, hselected | hpredicted⟩ := h.run
  · rw [hselected]
    exact hkeeps _ (run.last h.nonempty) d p position hp hlt hposition
  · obtain ⟨candidate, hc⟩ := List.exists_mem_of_ne_nil _ h.nonempty
    rw [hpredicted candidate hc d p hlt]
    exact hkeeps candidate hc d p position hp hlt hposition

theorem Iterates.viewId_le {history : List (Placing Prob)} {cur : Iterative Prob}
    (run : Iterates printed scorers app deviceApps opt maxCandidates history cur) :
    ∀ step ∈ history, step.viewId ≤ history.length := by
  induction run with
  | start =>
    intro step hs
    cases hs
  | next _ _ _ viewId _ ih =>
    intro step hs
    rw [List.length_append, List.length_singleton]
    rcases List.mem_append.mp hs with hs | hs
    · exact Nat.le_succ_of_le (ih step hs)
    · rw [List.mem_singleton.mp hs, viewId]

/-- A view stays where the iteration that placed it left it. -/
theorem Iterates.stays {history : List (Placing Prob)} {cur : Iterative Prob}
    (run : Iterates printed scorers app deviceApps opt maxCandidates history cur)
    (hknown : ∀ step ∈ history, step.AllKnown) :
    ∀ step ∈ history, ∀ d p position, 0 < p → p ≤ step.viewId →
      positionAt step.after.deviceApps d p = some position →
      positionAt cur.deviceApps d p = some position := by
  induction run with
  | start =>
    intro step hs
    cases hs
  | @next history cur last run places before viewId _ ih =>
    intro step hs d p position hp hle hposition
    rcases List.mem_append.mp hs with hs | hs
    · have hcur := ih (fun step hs => hknown step (List.mem_append_left _ hs)) step hs d p position
        hp hle hposition
      have hlt := run.viewId_le step hs
      have hlast := hknown last (List.mem_append_right _ (List.mem_singleton.mpr rfl))
      exact places.after_keeps (places.keeps hlast) hp (by omega) (before ▸ hcur)
    · rw [List.mem_singleton.mp hs] at hposition
      exact hposition

/-- In a run in which no placed view gets a coordinate -1, each candidate of an iteration has the
views of the earlier iterations where the last of them left them, and a view is never seen
anywhere else than where it was placed. -/
theorem placed_views_kept (printed : Prob → K)
    (scorers : (app : App Prob) → (o : Orientation) → ConstraintCache app o) (app : App Prob)
    (deviceApps : List (App Prob)) (opt : Bool) (maxCandidates : Nat)
    {history : List (Placing Prob)} {cur : Iterative Prob}
    (run : Iterates printed scorers app deviceApps opt maxCandidates history cur)
    (hknown : ∀ step ∈ history, step.AllKnown) :
    (∀ step ∈ history, step.Keeps) ∧
    history.Pairwise fun earlier later => ∀ candidate ∈ later.candidates, ∀ d p position,
      0 < p → p ≤ earlier.viewId → positionAt earlier.after.deviceApps d p = some position →
      positionAt candidate.2 d p = some position := by
  induction run with
  | start => exact ⟨fun step hs => absurd hs List.not_mem_nil, List.Pairwise.nil⟩
  | @next history cur last run places before viewId _ ih =>
    have hbefore : ∀ step ∈ history, step.AllKnown :=
      fun step hs => hknown step (List.mem_append_left _ hs)
    have hkeeps : last.Keeps :=
      places.keeps (hknown last (List.mem_append_right _ (List.mem_singleton.mpr rfl)))
    obtain ⟨ihKeeps, ihStays⟩ := ih hbefore
    constructor
    · intro step hs
      rcases List.mem_append.mp hs with hs | hs
      · exact ihKeeps step hs
      · rw [List.mem_singleton.mp hs]
        exact hkeeps
    · rw [List.pairwise_append]
      refine ⟨ihStays, List.pairwise_singleton _ _, ?_⟩
      intro earlier he later hl candidate hc d p position hp hle hposition
      rw [List.mem_singleton.mp hl] at hc
      have hcur := run.stays hbefore earlier he d p position hp hle hposition
      have hlt := run.viewId_le earlier he
      exact hkeeps candidate hc d p position hp (by omega) (before ▸ hcur)

end

/-! ## A view that is let go -/

section
variable [LinearOrder Prob] [Zero Prob]

instance (app : App Prob) : Decidable app.Rooted :=
  decidable_of_iff (0 < app.views.length ∧ (∀ root ∈ app.views[0]?, root.id = 0) ∧
      (app.views.map (·.id)).Nodup)
    ⟨fun ⟨nonempty, root_id, distinct⟩ => ⟨nonempty, root_id, distinct⟩,
      fun h => ⟨h.nonempty, h.root_id, h.distinct⟩⟩

/-- `AttrScorer(model, app, orientation)`, for apps with distinct ids and a content frame. -/
def attrScorer (model : ProbModel Prob) (sort : StdSort Prob) (app : App Prob) (o : Orientation) :
    ConstraintCache app o :=
  if h : app.Rooted then .ofModel model sort app h o
  else ⟨[], fun _ _ => false, fun _ _ h => by cases h⟩

end

/-- Two views in a content frame, the first one 70 pixels from its right edge. -/
def twoViewApp : App ℚ := .ofViews [⟨0, 0, 100, 100, 0, 0, fun _ => none, fun _ => none⟩,
  ⟨10, 20, 30, 60, 1, 0, fun _ => none, fun _ => none⟩,
  ⟨40, 70, 60, 80, 2, 0, fun _ => none, fun _ => none⟩]

/-- A screen on which the same margin leaves the first view one pixel outside. -/
def narrowDevice : App ℚ := .ofViews [⟨0, 0, 89, 100, 0, 0, fun _ => none, fun _ => none⟩,
  ⟨-1, -1, -1, -1, 1, 0, fun _ => none, fun _ => none⟩,
  ⟨-1, -1, -1, -1, 2, 0, fun _ => none, fun _ => none⟩]

/-- Everything laid out from the start of the root, but for the first view on the device when it
is laid out from its end, by the constraint `first`. -/
def narrowModel (first : ConstraintData) (start : Int) : Assignment ℚ where
  positionStart u d := if u = 1 ∧ d = 1 then start else
    match u with | 1 => 10 | 2 => 40 | 1001 => 20 | 1002 => 70 | _ => 0
  positionEnd u d := if u = 1 ∧ d = 1 then start + 20 else
    match u with | 1 => 30 | 2 => 60 | 1001 => 60 | 1002 => 80 | 0 => if d = 1 then 89 else 100
                 | _ => 100
  marginStart u := match u with | 1 => 10 | 2 => 40 | 1001 => 20 | 1002 => 70 | _ => 0
  marginEnd u := if u = 1 then 70 else 0
  anchor u := if u % 1000 = 0 then 0 else 1
  bias _ := 1 / 2
  cost _ := 0
  satisfied _ _ := true
  select name := decide (name ∈ [first, ⟨.t2t, .fixed, .vertical, 1, 0, -1⟩,
    ⟨.l2l, .fixed, .horizontal, 2, 0, -1⟩, ⟨.t2t, .fixed, .vertical, 2, 0, -1⟩])

def narrowScorer : (app : App ℚ) → (o : Orientation) → ConstraintCache app o :=
  attrScorer (fun _ _ => 0) (.insertion ℚ)

/-- An iteration whose first candidate, answered by `v`, is selected. -/
def placing (before : Iterative ℚ) (viewId : Nat) (v : Assignment ℚ) : Placing ℚ :=
  let cur := before.push twoViewApp [narrowDevice] viewId
  let st := (CandidateLoop.start cur.app cur.deviceApps).pass id (narrowScorer cur.app) [] v
  ⟨viewId, before, [st.candidate], ⟨st.app, st.deviceApps⟩⟩

/-- Whether `v` satisfies both phases of that iteration. -/
def Answers (before : Iterative ℚ) (viewId : Nat) (v : Assignment ℚ) : Prop :=
  let cur := before.push twoViewApp [narrowDevice] viewId
  let st := CandidateLoop.start cur.app cur.deviceApps
  let query := st.phase id (narrowScorer cur.app) []
  Models query.query v ∧
    Models (SingleQuery.oneShot id st.resetDevices (some st.helper) false query) v

instance (before : Iterative ℚ) (viewId : Nat) (v : Assignment ℚ) :
    Decidable (Answers before viewId v) :=
  inferInstanceAs (Decidable (_ ∧ _))

theorem Answers.places {before : Iterative ℚ} {viewId : Nat} {v : Assignment ℚ}
    (h : Answers before viewId v) :
    Places id narrowScorer twoViewApp [narrowDevice] false 16 (placing before viewId v) where
  nonempty := List.cons_ne_nil _ _
  bounded := by
    rw [placing, List.length_singleton]
    decide
  run := by
    refine ⟨_, Enumerates.next Enumerates.start ⟨?_, ⟨v, h.1⟩, false, .inl rfl, h.2⟩, rfl, .inl rfl⟩
    decide

def emptyPlacing : Iterative ℚ :=
  (Iterative.start [narrowDevice]).push twoViewApp [narrowDevice] 0

/-- Two iterations, with the answers `v` and `w`. -/
theorem iterates_two {v w : Assignment ℚ} (hv : Answers emptyPlacing 1 v)
    (hw : Answers (placing emptyPlacing 1 v).after 2 w) :
    Iterates id narrowScorer twoViewApp [narrowDevice] false 16
      [placing emptyPlacing 1 v, placing (placing emptyPlacing 1 v).after 2 w]
      (placing (placing emptyPlacing 1 v).after 2 w).after := by
  have first := Iterates.next Iterates.start hv.places rfl rfl (show 1 < 3 by decide)
  exact Iterates.next first hw.places rfl rfl (show 2 < 3 by decide)

def fromEnd : Assignment ℚ := narrowModel ⟨.r2r, .fixed, .horizontal, 1, 0, -1⟩ (-1)

def fromStart : Assignment ℚ := narrowModel ⟨.l2l, .fixed, .horizontal, 1, 0, -1⟩ 10

/-- The first view, placed at -1, is not kept by the second iteration. -/
theorem placed_view_moves :
    Iterates id narrowScorer twoViewApp [narrowDevice] false 16
      [placing emptyPlacing 1 fromEnd, placing (placing emptyPlacing 1 fromEnd).after 2 fromStart]
      (placing (placing emptyPlacing 1 fromEnd).after 2 fromStart).after ∧
    ¬ (placing (placing emptyPlacing 1 fromEnd).after 2 fromStart).Keeps := by
  refine ⟨iterates_two (by decide +kernel) (by decide +kernel), ?_⟩
  intro hkeeps
  have hposition : positionAt (placing emptyPlacing 1 fromEnd).after.deviceApps 0 1 =
      some (-1, 20, 19, 60) := by
    decide +kernel
  have hkept := hkeeps _ List.mem_cons_self 0 1 _ (by decide) (by decide) hposition
  revert hkept
  decide +kernel

/-- Placed from the start of the screen it is. -/
theorem placed_views_kept_narrow :
    (placing (placing emptyPlacing 1 fromStart).after 2 fromStart).Keeps := by
  have run := iterates_two (v := fromStart) (w := fromStart) (by decide +kernel) (by decide +kernel)
  refine (placed_views_kept id narrowScorer twoViewApp [narrowDevice] false 16 run ?_).1 _
    (List.mem_cons_of_mem _ List.mem_cons_self)
  intro step hs d p view hp hlt hview
  rcases List.mem_cons.mp hs with rfl | hs
  · change p < 1 at hlt
    omega
  · obtain rfl := List.mem_singleton.mp hs
    change p < 2 at hlt
    obtain rfl : p = 1 := by omega
    cases d with
    | zero =>
      have known : (viewAt (placing emptyPlacing 1 fromStart).after.deviceApps 0 1).all
          View.hasFixedPosition = true := by
        decide +kernel
      change viewAt (placing emptyPlacing 1 fromStart).after.deviceApps 0 1 = _ at hview
      rw [hview] at known
      exact known
    | succ d => cases hview

end InferUI
