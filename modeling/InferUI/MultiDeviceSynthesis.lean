import InferUI.GivenLayout
import InferUI.MultiDeviceRounds

/-!
# Multi-device synthesis from end to end

`SynthesizeMultiDeviceProb` under a solver and a clock that may answer anything at any check, and
`SynthesizeLayoutMultiDeviceProb`, which runs it once for each orientation on the screens of the
given devices.
-/

namespace InferUI
open Store CandidateConstraints
variable {Prob K : Type}

/-- An answer that is right. The solver may always give up. -/
def CheckResult.Right (query : List (Expr K)) : CheckResult K → Prop
  | .sat model => Models query model
  | .unsat => ¬ Sat query
  | .unknown => True

/-- What the solver and the clock do during a call of `SynthesizeMultiDeviceProb`. -/
structure Environment (K : Type) where
  /-- The answer of the first phase after so many rounds. -/
  answer : Nat → CheckResult K
  core : Nat → List Nat
  /-- Whether time is up when that answer is looked at. -/
  late : Nat → Bool
  finalAnswer : CheckResult K
  finalLate : Bool

/-- The cores of the first rounds. -/
def Environment.cores (env : Environment K) (rounds : Nat) : List (List Nat) :=
  (List.range rounds).map env.core

/-- What is returned when the last check was not satisfiable. -/
def failureStatus (late : Bool) : CheckResult K → Status
  | .unsat => if late then .timeout else .unsat
  | _ => if late then .timeout else .unknown

/-- The write-back to a device without user input, which skips no view but the root. -/
def App.assignAllPositions (device : App Prob) (o : Orientation) (z3Views : List Z3View)
    (v : Assignment K) : App Prob :=
  device.updateViews
    (fun p view =>
      if p = 0 then view
      else view.setPosition ((findView z3Views p).positionStart v)
        ((findView z3Views p).positionEnd v) o)
    fun p view => by
      split
      · rfl
      · exact view.pos_setPosition ..

/-- The loop of `GetSatConstraints` and of `GetSatConstraintsOracle` over the rounds of each, with
how many more it may make. -/
def wideningLoop {σ : Type} (round : σ → List Nat → σ) (env : Environment K) :
    Nat → Nat → σ → Status × σ
  | left, tries, st =>
    match env.answer tries with
    | .sat _ => (.success, st)
    | .unknown => (failureStatus (env.late tries) (env.answer tries), st)
    | .unsat =>
      match left with
      | 0 => (failureStatus (env.late tries) (env.answer tries), st)
      | left + 1 =>
        if env.late tries = true then (.timeout, st)
        else wideningLoop round env left (tries + 1) (round st (env.core tries))

section
variable [Field K] [LinearOrder K] [FloorRing K] {app : App Prob} {o : Orientation}

def getSatConstraints (printed : Prob → K) (deviceApps : List (App Prob)) (env : Environment K)
    (userInput robust : Bool) (scorer : ConstraintCache app o) : Status × MultiDevice app o K :=
  wideningLoop (MultiDevice.round printed deviceApps) env 50 0
    (.start printed deviceApps userInput robust scorer)

/-- An app and what it looks like on each device. -/
structure Layouts (Prob : Type) where
  app : App Prob
  deviceApps : List (App Prob)

variable [Zero Prob]

/-- The write-back of `SynthesizeMultiDeviceProb`. -/
def Layouts.assign (cur : Layouts Prob) (c : CandidateConstraints app o) (userInput : Bool)
    (v : Assignment K) : Layouts Prob where
  app := assignModels (convertViews app o 0) (selectionNames c) o v cur.app
  deviceApps :=
    if userInput = true then cur.deviceApps
    else cur.deviceApps.mapIdx fun d device =>
      device.assignAllPositions o (convertViews device o (d + 1)) v

/-- `SynthesizeMultiDeviceProb`, with the queries made from `app`: what the write-back changes in
the app of the call is not read again. -/
def synthesizeMultiDeviceProb (printed : Prob → K) (env : Environment K) (userInput robust : Bool)
    (scorer : ConstraintCache app o) (cur : Layouts Prob) : Status × Layouts Prob :=
  let first := getSatConstraints printed cur.deviceApps env userInput robust scorer
  if first.1 = .success then
    match env.finalAnswer with
    | .sat model => (.success, cur.assign first.2.encoder.candidates.resetAdding userInput model)
    | _ => (failureStatus env.finalLate env.finalAnswer, cur)
  else (first.1, cur)

end

/-! ## The status -/

theorem failureStatus_ne_success (late : Bool) (answer : CheckResult K) :
    failureStatus late answer ≠ .success := by
  cases late <;> cases answer <;> intro h <;> cases h

theorem failureStatus_unknown (late : Bool) :
    failureStatus late (.unknown : CheckResult K) ≠ .unsat := by
  cases late <;> intro h <;> cases h

theorem Environment.cores_succ (env : Environment K) (n : Nat) :
    env.cores (n + 1) = env.cores n ++ [env.core n] := by
  rw [cores, List.range_succ, List.map_append]
  rfl

/-- How a run of the loop from `start` ends: after so many rounds, each because the working set
before it was not satisfiable. -/
structure Ends {σ : Type} (round : σ → List Nat → σ) (start : σ) (env : Environment K)
    (limit rounds : Nat) (result : Status × σ) : Prop where
  state : result.2 = (env.cores rounds).foldl round start
  bounded : rounds ≤ limit
  before : ∀ n < rounds, env.answer n = .unsat
  success : result.1 = .success → ∃ model, env.answer rounds = .sat model
  unsat : result.1 = .unsat → env.answer rounds = .unsat ∧ rounds = limit

theorem wideningLoop_ends {σ : Type} {round : σ → List Nat → σ} {start : σ}
    {env : Environment K} (left tries : Nat) {st : σ}
    (hst : st = (env.cores tries).foldl round start)
    (hbefore : ∀ n < tries, env.answer n = .unsat) :
    ∃ rounds, Ends round start env (tries + left) rounds
      (wideningLoop round env left tries st) := by
  have hle := Nat.le_add_right tries left
  have hfailed (answer : CheckResult K) (h : failureStatus (env.late tries) answer = .success) :
      ∃ model, env.answer tries = .sat model :=
    absurd h (failureStatus_ne_success _ _)
  induction left generalizing tries st with
  | zero =>
    rw [wideningLoop]
    cases hanswer : env.answer tries with
    | sat model => exact ⟨tries, hst, hle, hbefore, fun _ => ⟨model, hanswer⟩, fun h => nomatch h⟩
    | unknown =>
      exact ⟨tries, hst, hle, hbefore, hfailed .unknown, fun h => absurd h
        (failureStatus_unknown (K := K) (env.late tries))⟩
    | unsat => exact ⟨tries, hst, hle, hbefore, hfailed .unsat, fun _ => ⟨hanswer, rfl⟩⟩
  | succ left ih =>
    rw [wideningLoop]
    cases hanswer : env.answer tries with
    | sat model => exact ⟨tries, hst, hle, hbefore, fun _ => ⟨model, hanswer⟩, fun h => nomatch h⟩
    | unknown =>
      exact ⟨tries, hst, hle, hbefore, hfailed .unknown, fun h => absurd h
        (failureStatus_unknown (K := K) (env.late tries))⟩
    | unsat =>
      by_cases hlate : env.late tries = true
      · simp only [hlate, ↓reduceIte]
        exact ⟨tries, hst, hle, hbefore, fun h => (nomatch h), fun h => (nomatch h)⟩
      · simp only [hlate, Bool.false_eq_true, ↓reduceIte]
        have hnext : round st (env.core tries) =
            (env.cores (tries + 1)).foldl round start := by
          rw [hst, Environment.cores_succ, List.foldl_append]
          rfl
        have hsofar : ∀ n < tries + 1, env.answer n = .unsat := by
          intro n hn
          rcases Nat.lt_succ_iff_lt_or_eq.mp hn with hlt | rfl
          · exact hbefore n hlt
          · exact hanswer
        rw [Nat.add_comm left 1, ← Nat.add_assoc]
        exact ih (tries + 1) hnext hsofar (Nat.le_add_right ..)
          fun _ h => absurd h (failureStatus_ne_success _ _)

section
variable [Field K] [LinearOrder K] [FloorRing K] {app : App Prob} {o : Orientation}

/-- Every answer in a call is right. -/
structure Environment.Correct (env : Environment K) (printed : Prob → K)
    (deviceApps : List (App Prob)) (userInput robust opt : Bool) (scorer : ConstraintCache app o) :
    Prop where
  first : ∀ n, (env.answer n).Right
    (MultiDevice.run printed deviceApps userInput robust scorer (env.cores n)).query
  final : let first := getSatConstraints printed deviceApps env userInput robust scorer
    first.1 = .success →
      env.finalAnswer.Right (first.2.oneShot printed deviceApps userInput robust opt)

namespace MultiDevice
variable {printed : Prob → K} {deviceApps : List (App Prob)} {userInput robust opt : Bool}
variable {scorer : ConstraintCache app o} {env : Environment K}

theorem getSatConstraints_ends (printed : Prob → K) (deviceApps : List (App Prob))
    (userInput robust : Bool) (scorer : ConstraintCache app o) (env : Environment K) :
    ∃ rounds, Ends (round printed deviceApps)
      (start printed deviceApps userInput robust scorer) env 50 rounds
      (getSatConstraints printed deviceApps env userInput robust scorer) :=
  wideningLoop_ends 50 0 rfl fun _ h => absurd h (Nat.not_lt_zero _)

/-- What the second phase asserts is satisfiable when the first succeeds. -/
theorem sat_oneShot_of_success
    (h : env.Correct printed deviceApps userInput robust opt scorer)
    (hsuccess : (getSatConstraints printed deviceApps env userInput robust scorer).1 = .success) :
    Sat ((getSatConstraints printed deviceApps env userInput robust scorer).2.oneShot printed
      deviceApps userInput robust opt) := by
  obtain ⟨rounds, hends⟩ := getSatConstraints_ends printed deviceApps userInput robust scorer env
  obtain ⟨model, hanswer⟩ := hends.success hsuccess
  have hmodel := h.first rounds
  rw [hanswer] at hmodel
  rw [hends.state]
  change Sat ((run printed deviceApps userInput robust scorer (env.cores rounds)).oneShot printed
    deviceApps userInput robust opt)
  obtain ⟨history, h⟩ := run_invariant printed deviceApps userInput robust scorer
    (env.cores rounds)
  obtain ⟨cost, satisfied, hv⟩ := (oneShot_iff _ opt model).mpr
    ((query_iff h model).mp ⟨model.satisfied, hmodel⟩)
  exact ⟨_, hv⟩

end MultiDevice

variable [Zero Prob]

/-- With a solver that tells the truth, `SynthesizeMultiDeviceProb` reports that there is no
layout only when each of the 51 working sets of the first phase had none, and never after that
phase has succeeded. -/
theorem synthesizeMultiDeviceProb_unsat {printed : Prob → K} {userInput robust opt : Bool}
    {scorer : ConstraintCache app o} {env : Environment K} {cur : Layouts Prob}
    (h : env.Correct printed cur.deviceApps userInput robust opt scorer) :
    let first := getSatConstraints printed cur.deviceApps env userInput robust scorer
    let result := synthesizeMultiDeviceProb printed env userInput robust scorer cur
    (first.1 = .success → result.1 ≠ .unsat) ∧
    (result.1 = .unsat → ∀ n ≤ 50, ¬ Sat (MultiDevice.run printed cur.deviceApps userInput robust
      scorer (env.cores n)).query) := by
  intro first result
  have hsecond : first.1 = .success → result.1 ≠ .unsat := by
    intro hsuccess hunsat
    have hfinal := h.final hsuccess
    simp only [result, synthesizeMultiDeviceProb] at hunsat
    rw [if_pos hsuccess] at hunsat
    cases hanswer : env.finalAnswer with
    | sat model =>
      rw [hanswer] at hunsat
      cases hunsat
    | unsat =>
      rw [hanswer] at hfinal
      exact hfinal (MultiDevice.sat_oneShot_of_success h hsuccess)
    | unknown =>
      rw [hanswer] at hunsat
      exact failureStatus_unknown (K := K) _ hunsat
  refine ⟨hsecond, ?_⟩
  intro hunsat n hn
  have hfirst : first.1 = .unsat := by
    have hfailed : ¬ first.1 = .success := fun hsuccess => hsecond hsuccess hunsat
    have hresult : result.1 = first.1 := by
      simp only [result, synthesizeMultiDeviceProb]
      rw [if_neg hfailed]
    rw [← hresult, hunsat]
  obtain ⟨rounds, hends⟩ := MultiDevice.getSatConstraints_ends printed cur.deviceApps userInput
    robust scorer env
  obtain ⟨hanswer, rfl⟩ := hends.unsat hfirst
  have hnever : env.answer n = .unsat := by
    rcases Nat.lt_or_eq_of_le hn with hlt | rfl
    · exact hends.before n hlt
    · exact hanswer
  have hright := h.first n
  rwa [hnever] at hright

end
/-! ## What is written passes the checks -/

theorem edgeAt_setPosition (view : View Prob) (start «end» : Int) (o o' : Orientation) (s : Side) :
    (view.setPosition start «end» o).edge o' s =
      if o' = o then (match s with | .start => start | .end => «end») else view.edge o' s := by
  cases o <;> cases o' <;> cases s <;> rfl

section
variable {device : App Prob} {o : Orientation} {v : Assignment K} {d : Nat}

theorem length_assignAllPositions (device : App Prob) (o : Orientation) (z3Views : List Z3View)
    (v : Assignment K) :
    (device.assignAllPositions o z3Views v).views.length = device.views.length :=
  List.length_mapIdx

/-- Nothing changes along the other orientation. -/
theorem edgeAt_assignAllPositions_of_ne (z3Views : List Z3View) (v : Assignment K)
    {o' : Orientation} (hne : o' ≠ o) (p : Nat) (s : Side) :
    (device.assignAllPositions o z3Views v).edgeAt o' p s = device.edgeAt o' p s := by
  rw [App.edgeAt, App.edgeAt, App.assignAllPositions, App.updateViews, List.getElem?_mapIdx]
  cases device.views[p]? with
  | none => rfl
  | some view =>
    rw [Option.map_some, Option.elim_some, Option.elim_some]
    split
    · rfl
    · rw [edgeAt_setPosition, if_neg hne]

/-- Placing the views along one orientation leaves a blank device blank along the other. -/
theorem App.Blank.assignAllPositions {o' : Orientation} (h : device.Blank o')
    (hne : o' ≠ o) (z3Views : List Z3View) (v : Assignment K) :
    (device.assignAllPositions o z3Views v).Blank o' := by
  intro view hview hpos s
  obtain ⟨p, hp⟩ := List.mem_iff_getElem?.mp hview
  have hplace := (device.assignAllPositions o z3Views v).pos_eq p view hp
  have hedge : (device.assignAllPositions o z3Views v).edgeAt o' p s = device.edgeAt o' p s :=
    edgeAt_assignAllPositions_of_ne z3Views v hne p s
  have hlt : p < device.views.length := by
    have := (List.getElem?_eq_some_iff.mp hp).1
    rwa [length_assignAllPositions] at this
  rw [edgeAt_eq hp, edgeAt_eq (List.getElem?_eq_getElem hlt)] at hedge
  rw [hedge]
  exact h _ (List.getElem_mem hlt) (by rwa [device.getElem_pos hlt, ← hplace]) s

theorem height_eq_edgeAt {ref : App Prob} {p : Nat} (hlt : p < ref.views.length) :
    (ref.views[p]?).elim 0 (·.height) =
      ref.edgeAt .vertical p .end - ref.edgeAt .vertical p .start := by
  have hview := List.getElem?_eq_getElem hlt
  rw [edgeAt_eq hview, edgeAt_eq hview, hview]
  rfl

/-- Along the orientation of the query every view is where the model has it, the root included. -/
theorem edgeAt_assignAllPositions (hroot : Models (assertRoot (convertViews device o d)) v)
    {p : Nat} (hlt : p < device.views.length) (s : Side) :
    (device.assignAllPositions o (convertViews device o d) v).edgeAt o p s =
      (findView (convertViews device o d) p).edge s v := by
  have hview := List.getElem?_eq_getElem hlt
  rw [App.edgeAt, App.assignAllPositions, App.updateViews, List.getElem?_mapIdx, hview,
    Option.map_some, Option.elim_some]
  split
  · rename_i hzero
    subst hzero
    obtain ⟨hstart, hend⟩ := (models_assertPosition hview).mp hroot
    rw [findView_eq hview]
    cases s with
    | start => exact hstart.symm
    | «end» => exact hend.symm
  · rw [edgeAt_setPosition, if_pos rfl]
    cases s <;> rfl

end

section
variable [Field K] [LinearOrder K] {app device device' : App Prob} {o : Orientation} {d : Nat}
variable {v : Assignment K}

/-- The four queries of the checks that are about one orientation. -/
structure PassesAlong (ref app : App Prob) (o : Orientation) : Prop where
  bounds : app.InsideAlong o
  intersection : Sat (intersectionAssertions ref app o)
  centering : Sat (keepsQuery (assertKeepsCentering ref) ref app o)
  margins : Sat (keepsQuery (assertKeepsMargins ref) ref app o)

/-- The robust assertions about a blank device are what the checks ask of an app that has its
views where the model has them. -/
theorem passesAlong_of_robust (hlength : device.views.length = app.views.length)
    (hlength' : device'.views.length = app.views.length) (hblank : device.Blank o)
    (hreference : Models (addPositionConstraints (convertViews app o 0) true) v)
    (hrobust : Models (addRobust app o device d) v)
    (hedge : ∀ p < app.views.length, ∀ s,
      device'.edgeAt o p s = (findView (convertViews device o (d + 1)) p).edge s v) :
    PassesAlong app device' o ∧
      (o = .horizontal → (∀ i < app.views.length, (device.views[i]?).elim 0 (·.height) =
        (device'.views[i]?).elim 0 (·.height)) → checkSizeRatio app device') := by
  obtain ⟨href, happ⟩ := positionsModel_keeps app device' o
  have hsame : SameEdges app.views.length (convertViews device o (d + 1)) v
      (convertViews device' o 1) (positionsModel app device' o) := by
    intro p hlt s
    rw [edge_of_assertPositions happ (hlength' ▸ hlt), hedge p hlt s]
  have hsameRef : SameEdges app.views.length (convertViews app o 0) v
      (convertViews app o 0) (positionsModel app device' o) := by
    intro p hlt s
    obtain ⟨_, ⟨hstart, hend⟩, _⟩ := models_addPositionConstraints.mp hreference p _
      (List.getElem?_eq_getElem hlt)
    rw [edge_of_assertPositions href hlt, edgeAt_eq (List.getElem?_eq_getElem hlt),
      findView_eq (List.getElem?_eq_getElem hlt)]
    cases s with
    | start => exact hstart
    | «end» => exact hend
  simp only [addRobust, assertKeepsLook, models_append] at hrobust
  obtain ⟨_, ⟨⟨⟨hbounds, horder⟩, hcenters⟩, hmargins⟩, hratio⟩ := hrobust
  refine ⟨⟨?_, ?_, ?_, ?_⟩, ?_⟩
  · intro p hp hlt
    rw [hlength'] at hlt
    have h0 : 0 < app.views.length := by omega
    rw [hedge 0 h0, hedge 0 h0, hedge p hlt, hedge p hlt]
    exact models_assertNotOutOfBounds.mp hbounds p hp (hlength ▸ hlt)
      (hblank.free hp (hlength ▸ hlt))
  · exact ⟨_, models_append.mpr
      ⟨models_append.mpr ⟨href, happ⟩, (assertKeepsIntersection_congr hsame).mp horder⟩⟩
  · refine ⟨_, models_append.mpr ⟨models_append.mpr ⟨href, happ⟩, ?_⟩⟩
    rw [models_assertKeepsCentering] at hcenters ⊢
    exact hcenters.congr hsame
  · exact ⟨_, models_append.mpr
      ⟨models_append.mpr ⟨href, happ⟩, (assertKeepsMargins_congr hsameRef hsame).mp hmargins⟩⟩
  · rintro rfl hheight
    exact ⟨_, models_append.mpr ⟨models_append.mpr ⟨href, happ⟩,
      (assertKeepsSizeRatio_congr hsame hheight).mp hratio⟩⟩

end

/-! ## The screens of the devices -/

def Device.size (device : Device) : Orientation → Int
  | .horizontal => device.width
  | .vertical => device.height

/-- `TryResizeView`, which moves the far edge of a root. -/
def tryResizeView (resizable : Orientation → Bool) (ref : App Prob) (refDevice device : Device)
    (o : Orientation) (root : View Prob) : View Prob :=
  if resizable o = true ∨ device.size o < (ref.views[0]?).elim 0 (·.size o) then
    root.setPosition (root.startAt o) (root.endAt o + (device.size o - refDevice.size o)) o
  else root

/-- `ResizeApp` for a device: the content frame is resized and nothing else is placed. -/
def resizeApp (resizable : Orientation → Bool) (ref : App Prob) (refDevice target : Device) :
    App Prob :=
  (emptyApp ref).updateViews
    (fun p view =>
      if p = 0 then tryResizeView resizable ref refDevice target .vertical
        (tryResizeView resizable ref refDevice target .horizontal view)
      else view)
    fun p view => by
      split
      · unfold tryResizeView
        split <;> split <;> simp
      · rfl

theorem length_emptyApp (ref : App Prob) : (emptyApp ref).views.length = ref.views.length := by
  simp [emptyApp, App.ofViews]

theorem length_resizeApp (resizable : Orientation → Bool) (ref : App Prob)
    (refDevice target : Device) :
    (resizeApp resizable ref refDevice target).views.length = ref.views.length := by
  rw [resizeApp, App.updateViews, List.length_mapIdx, length_emptyApp]

/-- Only the content frame has a place on the screen of a device. -/
theorem resizeApp_blank {ref : App Prob} (hroot : ref.Rooted) (resizable : Orientation → Bool)
    (refDevice target : Device) (o : Orientation) :
    (resizeApp resizable ref refDevice target).Blank o := by
  intro view hview hpos s
  obtain ⟨p, hp⟩ := List.mem_iff_getElem?.mp hview
  have hplace := (resizeApp resizable ref refDevice target).pos_eq p view hp
  have hne : p ≠ 0 := hplace ▸ hpos
  rw [resizeApp, App.updateViews, List.getElem?_mapIdx, emptyApp, App.ofViews,
    List.getElem?_mapIdx, List.getElem?_map] at hp
  cases hold : ref.views[p]? with
  | none =>
    rw [hold] at hp
    cases hp
  | some old =>
    have hid : old.isContentFrame = false := by
      obtain ⟨hlt, heq⟩ := List.getElem?_eq_some_iff.mp hold
      rw [View.isContentFrame, decide_eq_false_iff_not, ← heq, ← ref.idOf_eq hlt,
        hroot.idOf_eq_zero hlt]
      exact hne
    rw [hold] at hp
    simp only [Option.map_some, Option.some.injEq, hid, Bool.false_eq_true, ↓reduceIte, hne] at hp
    subst hp
    cases o <;> cases s <;> rfl

section
variable [Field K] [LinearOrder K] [FloorRing K] [Zero Prob] {app : App Prob} {o : Orientation}

/-- `SynthesizeLayoutMultiDeviceProb` for a list of devices. -/
def synthesizeLayoutMultiDeviceProb (printed : Prob → K) (env : Orientation → Environment K)
    (scorers : (o : Orientation) → ConstraintCache app o) (resizable : Orientation → Bool)
    (refDevice : Device) (devices : List Device) : Status × Layouts Prob :=
  let robust := !devices.isEmpty
  let vertical := synthesizeMultiDeviceProb printed (env .vertical) false robust
    (scorers .vertical) ⟨app, devices.map (resizeApp resizable app refDevice)⟩
  if vertical.1 = .success then
    synthesizeMultiDeviceProb printed (env .horizontal) false robust (scorers .horizontal)
      vertical.2
  else vertical

/-- A success comes from a model of the second phase. -/
theorem exists_model_of_success {printed : Prob → K} {userInput robust opt : Bool}
    {scorer : ConstraintCache app o} {env : Environment K} {cur : Layouts Prob}
    (h : env.Correct printed cur.deviceApps userInput robust opt scorer)
    (hsuccess : (synthesizeMultiDeviceProb printed env userInput robust scorer cur).1 = .success) :
    ∃ (cores : List (List Nat)) (v : Assignment K),
      let c := (MultiDevice.run printed cur.deviceApps userInput robust scorer
        cores).encoder.candidates.resetAdding
      env.finalAnswer = .sat v ∧
      Models (multiDeviceAssertions printed cur.deviceApps userInput robust opt c) v ∧
      (synthesizeMultiDeviceProb printed env userInput robust scorer cur).2 =
        cur.assign c userInput v := by
  obtain ⟨rounds, hends⟩ := MultiDevice.getSatConstraints_ends printed cur.deviceApps userInput
    robust scorer env
  have hfinal := h.final
  rw [synthesizeMultiDeviceProb] at hsuccess ⊢
  by_cases hfirst : (getSatConstraints printed cur.deviceApps env userInput robust scorer).1 =
      .success
  · rw [if_pos hfirst] at hsuccess ⊢
    have hright := hfinal hfirst
    cases hanswer : env.finalAnswer with
    | sat v =>
      rw [hanswer] at hright
      refine ⟨env.cores rounds, v, rfl, ?_, ?_⟩
      · rwa [MultiDevice.run, ← hends.state]
      · rw [MultiDevice.run, ← hends.state]
    | unsat =>
      rw [hanswer] at hsuccess
      exact absurd hsuccess (failureStatus_ne_success env.finalLate (.unsat : CheckResult K))
    | unknown =>
      rw [hanswer] at hsuccess
      exact absurd hsuccess (failureStatus_ne_success env.finalLate (.unknown : CheckResult K))
  · rw [if_neg hfirst] at hsuccess
    exact absurd hsuccess hfirst

/-- The devices have got the places of a model in which their robust assertions hold. -/
structure PlacesDevices (app : App Prob) (o : Orientation) (v : Assignment K)
    (before after : List (App Prob)) : Prop where
  reference : Models (addPositionConstraints (convertViews app o 0) true) v
  places : ∀ d : Nat, after[d]? = (before[d]?).map fun device : App Prob =>
    device.assignAllPositions o (convertViews device o (d + 1)) v
  root : ∀ (d : Nat) device, before[d]? = some device →
    Models (assertRoot (convertViews device o (d + 1))) v
  robust : ∀ (d : Nat) device, before[d]? = some device → Models (addRobust app o device d) v

theorem exists_placesDevices {printed : Prob → K} {opt : Bool} {scorer : ConstraintCache app o}
    {env : Environment K} {cur : Layouts Prob}
    (h : env.Correct printed cur.deviceApps false true opt scorer)
    (hsuccess : (synthesizeMultiDeviceProb printed env false true scorer cur).1 = .success) :
    ∃ v : Assignment K, PlacesDevices app o v cur.deviceApps
      (synthesizeMultiDeviceProb printed env false true scorer cur).2.deviceApps := by
  obtain ⟨cores, v, _, hmodel, hresult⟩ := exists_model_of_success h hsuccess
  obtain ⟨hreference, _, hdevices⟩ := models_multiDevice.mp hmodel
  simp only [addMultiDevice, models_append, Bool.false_eq_true, ↓reduceIte] at hdevices
  refine ⟨v, hreference, ?_, fun d device hd => (hdevices d device hd).1.1.1,
    fun d device hd => (hdevices d device hd).1.2⟩
  intro d
  rw [hresult, Layouts.assign, if_neg Bool.false_ne_true, List.getElem?_mapIdx]

theorem length_deviceApps (printed : Prob → K) (env : Environment K) (userInput robust : Bool)
    (scorer : ConstraintCache app o) (cur : Layouts Prob) :
    (synthesizeMultiDeviceProb printed env userInput robust scorer cur).2.deviceApps.length =
      cur.deviceApps.length := by
  rw [synthesizeMultiDeviceProb]
  split
  · split
    · rw [Layouts.assign]
      split
      · rfl
      · exact List.length_mapIdx
    · rfl
  · rfl

omit [FloorRing K] [Zero Prob] in
/-- Blank devices that are placed by a model of each orientation pass the checks. -/
theorem passes_of_placesDevices {v w : Assignment K} {before between after : List (App Prob)}
    (hbefore : ∀ device ∈ before, device.views.length = app.views.length ∧ ∀ o, device.Blank o)
    (hv : PlacesDevices app .vertical v before between)
    (hw : PlacesDevices app .horizontal w between after) :
    ∀ device ∈ after, device.views.length = app.views.length ∧ checkBounds device ∧
      checkIntersection app device ∧ checkCentering app device ∧ checkMargins app device ∧
      checkSizeRatio app device := by
  intro last hlast
  obtain ⟨d, hd⟩ := List.mem_iff_getElem?.mp hlast
  obtain ⟨middle, hmiddle, rfl⟩ := Option.map_eq_some_iff.mp (hw.places d ▸ hd)
  obtain ⟨device, hdevice, rfl⟩ := Option.map_eq_some_iff.mp (hv.places d ▸ hmiddle)
  obtain ⟨hlength, hblank⟩ := hbefore device (List.mem_of_getElem? hdevice)
  have hlengthMiddle : (device.assignAllPositions .vertical
      (convertViews device .vertical (d + 1)) v).views.length = app.views.length := by
    rw [length_assignAllPositions, hlength]
  have hlengthLast : ((device.assignAllPositions .vertical
      (convertViews device .vertical (d + 1)) v).assignAllPositions .horizontal
      (convertViews (device.assignAllPositions .vertical (convertViews device .vertical (d + 1)) v)
        .horizontal (d + 1)) w).views.length = app.views.length := by
    rw [length_assignAllPositions, hlengthMiddle]
  have hvertical (p : Nat) (hlt : p < app.views.length) (s : Side) :
      ((device.assignAllPositions .vertical (convertViews device .vertical (d + 1))
        v).assignAllPositions .horizontal (convertViews (device.assignAllPositions .vertical
          (convertViews device .vertical (d + 1)) v) .horizontal (d + 1)) w).edgeAt .vertical p s =
        (findView (convertViews device .vertical (d + 1)) p).edge s v := by
    rw [edgeAt_assignAllPositions_of_ne _ _ (by decide),
      edgeAt_assignAllPositions (hv.root d device hdevice) (hlength ▸ hlt)]
  have hhorizontal (p : Nat) (hlt : p < app.views.length) (s : Side) :=
    edgeAt_assignAllPositions (hw.root d _ hmiddle) (hlengthMiddle ▸ hlt) s
  obtain ⟨hpassV, _⟩ := passesAlong_of_robust hlength hlengthLast (hblank .vertical) hv.reference
    (hv.robust d device hdevice) hvertical
  obtain ⟨hpassH, hratio⟩ := passesAlong_of_robust hlengthMiddle hlengthLast
    ((hblank .horizontal).assignAllPositions (by decide) _ v) hw.reference
    (hw.robust d _ hmiddle) hhorizontal
  refine ⟨hlengthLast, ?_, ⟨hpassH.intersection, hpassV.intersection⟩,
    ⟨hpassH.centering, hpassV.centering⟩, ⟨hpassH.margins, hpassV.margins⟩, ?_⟩
  · rw [checkBounds, sat_boundsQuery, sat_boundsQuery]
    exact ⟨hpassH.bounds, hpassV.bounds⟩
  · apply hratio rfl
    intro i hlt
    rw [height_eq_edgeAt (hlengthMiddle ▸ hlt), height_eq_edgeAt (hlengthLast ▸ hlt),
      edgeAt_assignAllPositions_of_ne _ w (by decide),
      edgeAt_assignAllPositions_of_ne _ w (by decide)]

/-- What robust synthesis leaves on the screens of the devices passes the checks that are made
afterwards: the assertions of both orientations and the checkers agree. -/
theorem synthesizeLayoutMultiDeviceProb_passes {printed : Prob → K} {opt : Bool}
    {env : Orientation → Environment K} {scorers : (o : Orientation) → ConstraintCache app o}
    {resizable : Orientation → Bool} {refDevice : Device} {devices : List Device}
    (hroot : app.Rooted)
    (hvertical : (env .vertical).Correct printed (devices.map (resizeApp resizable app refDevice))
      false (!devices.isEmpty) opt (scorers .vertical))
    (hhorizontal : (env .horizontal).Correct printed (synthesizeMultiDeviceProb printed
        (env .vertical) false (!devices.isEmpty) (scorers .vertical)
        ⟨app, devices.map (resizeApp resizable app refDevice)⟩).2.deviceApps
      false (!devices.isEmpty) opt (scorers .horizontal)) :
    let result := synthesizeLayoutMultiDeviceProb printed env scorers resizable refDevice devices
    result.1 = .success → result.2.deviceApps.length = devices.length ∧
      ∀ device ∈ result.2.deviceApps, device.views.length = app.views.length ∧
        checkBounds device ∧ checkIntersection app device ∧ checkCentering app device ∧
        checkMargins app device ∧ checkSizeRatio app device := by
  intro result hsuccess
  let first := synthesizeMultiDeviceProb printed (env .vertical) false (!devices.isEmpty)
    (scorers .vertical) ⟨app, devices.map (resizeApp resizable app refDevice)⟩
  let second := synthesizeMultiDeviceProb printed (env .horizontal) false (!devices.isEmpty)
    (scorers .horizontal) first.2
  have hfirst : first.1 = .success := by
    by_contra hfailed
    have hresult : result = first := if_neg hfailed
    exact hfailed (hresult ▸ hsuccess)
  have hresult : result = second := if_pos hfirst
  rw [hresult] at hsuccess ⊢
  have hlength : second.2.deviceApps.length = devices.length := by
    rw [length_deviceApps, length_deviceApps, List.length_map]
  refine ⟨hlength, ?_⟩
  by_cases hempty : devices = []
  · intro device hdevice
    rw [hempty, List.length_nil, List.length_eq_zero_iff] at hlength
    rw [hlength] at hdevice
    cases hdevice
  · have hrobust : (!devices.isEmpty) = true := by simpa using hempty
    have hbefore : ∀ device ∈ devices.map (resizeApp resizable app refDevice),
        device.views.length = app.views.length ∧ ∀ o, device.Blank o := by
      intro device hdevice
      obtain ⟨target, _, rfl⟩ := List.mem_map.mp hdevice
      exact ⟨length_resizeApp .., resizeApp_blank hroot resizable refDevice target⟩
    simp only [second, first, hrobust] at hvertical hhorizontal hfirst hsuccess ⊢
    obtain ⟨v, hv⟩ := exists_placesDevices hvertical hfirst
    obtain ⟨w, hw⟩ := exists_placesDevices hhorizontal hsuccess
    exact passes_of_placesDevices hbefore hv hw

end

/-! ## A view inside its root, on a larger screen -/

/-- A view inside the content frame, four to three. -/
def insetApp : App ℚ := .ofViews [⟨0, 0, 100, 100, 0, 0, fun _ => none, fun _ => none⟩,
  ⟨10, 20, 90, 80, 1, 0, fun _ => none, fun _ => none⟩]

theorem insetApp_rooted : insetApp.Rooted := App.rooted_ofViews rfl (by decide)

def largeScreen : Device := ⟨140, 130⟩

/-- The distance of the view from both sides of the screen. -/
def inset : Orientation → Int
  | .horizontal => 10
  | .vertical => 20

/-- The view keeps its distances, by the constraint between both sides of the screen. -/
def insetModel (o : Orientation) : Assignment ℚ where
  positionStart u _ := if u % 1000 = 0 then 0 else inset o
  positionEnd u d :=
    (if d = 0 then 100 else largeScreen.size o) - if u % 1000 = 0 then 0 else inset o
  marginStart _ := inset o
  marginEnd _ := inset o
  anchor u := if u % 1000 = 0 then 0 else 1
  bias _ := 1 / 2
  cost _ := 0
  satisfied _ _ := true
  select name := decide (name = ⟨match o with | .horizontal => .l2lxr2r | .vertical => .t2txb2b,
    .matchConstraint, o, 1, 0, 0⟩)

theorem inset_small (o : Orientation) : inset o < 10000 := by
  cases o <;> decide

def insetEnvironment (o : Orientation) : Environment ℚ where
  answer n := if n = 0 then .sat (insetModel o) else .unknown
  core _ := []
  late _ := false
  finalAnswer := .sat (insetModel o)
  finalLate := false

def insetCache (o : Orientation) : ConstraintCache insetApp o :=
  .ofModel (fun _ _ => 0) (.insertion ℚ) insetApp insetApp_rooted o

theorem insetEnvironment_correct (o : Orientation) {deviceApps : List (App ℚ)} {robust : Bool}
    (hfirst : Models (MultiDevice.run (id : ℚ → ℚ) deviceApps false robust (insetCache o) []).query
      (insetModel o))
    (hfinal : Models (MultiDevice.oneShot id deviceApps false robust false
      (MultiDevice.run (id : ℚ → ℚ) deviceApps false robust (insetCache o) [])) (insetModel o)) :
    (insetEnvironment o).Correct id deviceApps false robust false (insetCache o) where
  first n := by
    cases n with
    | zero => exact hfirst
    | succ n => trivial
  final _ := hfinal

/-- The screen of the only device, before the synthesis. -/
def largeScreens : List (App ℚ) :=
  [largeScreen].map (resizeApp (fun _ => true) insetApp ⟨100, 100⟩)

theorem insetEnvironment_vertical : (insetEnvironment .vertical).Correct id largeScreens
    false true false (insetCache .vertical) :=
  insetEnvironment_correct .vertical (by decide +kernel) (by decide +kernel)

/-- The screen of the device, after the vertical pass. -/
def insetScreens : Status × Layouts ℚ :=
  synthesizeMultiDeviceProb id (insetEnvironment .vertical) false true (insetCache .vertical)
    ⟨insetApp, largeScreens⟩

theorem insetEnvironment_horizontal : (insetEnvironment .horizontal).Correct id
    insetScreens.2.deviceApps false true false (insetCache .horizontal) :=
  insetEnvironment_correct .horizontal (by decide +kernel) (by decide +kernel)

theorem synthesizeMultiDeviceProb_unsat_inset :
    (getSatConstraints id largeScreens (insetEnvironment .vertical) false true
        (insetCache .vertical)).1 = .success ∧ insetScreens.1 ≠ .unsat := by
  have hfirst : (getSatConstraints id largeScreens (insetEnvironment .vertical) false true
      (insetCache .vertical)).1 = .success := rfl
  exact ⟨hfirst, (synthesizeMultiDeviceProb_unsat insetEnvironment_vertical).1 hfirst⟩

theorem synthesizeLayoutMultiDeviceProb_passes_inset :
    let result := synthesizeLayoutMultiDeviceProb id insetEnvironment insetCache (fun _ => true)
      ⟨100, 100⟩ [largeScreen]
    result.1 = .success ∧ ∀ device ∈ result.2.deviceApps, checkBounds device ∧
      checkMargins insetApp device ∧ checkSizeRatio insetApp device := by
  intro result
  have hsuccess : result.1 = .success := rfl
  refine ⟨hsuccess, ?_⟩
  intro device hdevice
  obtain ⟨_, hbounds, _, _, hmargins, hratio⟩ :=
    (synthesizeLayoutMultiDeviceProb_passes insetApp_rooted insetEnvironment_vertical
      insetEnvironment_horizontal hsuccess).2 device hdevice
  exact ⟨hbounds, hmargins, hratio⟩

end InferUI
