import InferUI.Enumeration
import InferUI.Robust
import InferUI.SingleQuery

/-!
# One orientation on many devices

`GetSatConstraints` and `SynthesizeMultiDeviceProb` encode one orientation of the reference
and of all devices. The second asserts the same as the first does before its first check, for
the candidates that the first returns and with the assumptions among the assertions.
`SynthesizeMultiDevice` enumerates the constraints instead, with a free bias.
-/

namespace InferUI
open Store
variable {Prob K : Type} [Field K] [LinearOrder K] [FloorRing K]
variable {app : App Prob} {o : Orientation}

/-- What both syntheses assert after the bounds on the sizes. -/
def assertKeepsLook (app : App Prob) (o : Orientation) (device : App Prob) (deviceId : Nat) :
    List (Expr K) :=
  let refViews := convertViews app o 0
  let views := convertViews device o (deviceId + 1)
  assertNotOutOfBounds views ++
    assertKeepsIntersection app refViews views ++ assertKeepsCentering app refViews views ++
    assertKeepsMargins app refViews views ++
    if o = .horizontal then assertKeepsSizeRatio app refViews views device else []

/-- The robust part of the loop body for one device. -/
def addRobust (app : App Prob) (o : Orientation) (device : App Prob) (deviceId : Nat) :
    List (Expr K) :=
  assertSizeBounds (convertViews app o 0) (convertViews device o (deviceId + 1)) ++
    assertKeepsLook app o device deviceId

/-- The loop body for one device. -/
def addMultiDevice (c : CandidateConstraints app o) (device : App Prob) (deviceId : Nat)
    (userInput robust : Bool) : List (Expr K) :=
  let views := convertViews device o (deviceId + 1)
  assertRoot views ++
    (if userInput = true then assertKnownPositions app.views.length views else []) ++
    (if robust = true then addRobust app o device deviceId else []) ++ addGenAttributes views c

/-- The assertions together with the assumptions. -/
def multiDeviceAssertions (printed : Prob → K) (deviceApps : List (App Prob))
    (userInput robust opt : Bool) (c : CandidateConstraints app o) : List (Expr K) :=
  addPositionConstraints (convertViews app o 0) true ++ selectionAssertions printed c opt ++
    deviceApps.zipIdx.flatMap fun device => addMultiDevice c device.1 device.2 userInput robust

theorem models_multiDevice {printed : Prob → K} {deviceApps : List (App Prob)}
    {userInput robust opt : Bool} {c : CandidateConstraints app o} {v : Assignment K} :
    Models (multiDeviceAssertions printed deviceApps userInput robust opt c) v ↔
      Models (addPositionConstraints (convertViews app o 0) true) v ∧
      Models (selectionAssertions printed c opt) v ∧
      ∀ d device, deviceApps[d]? = some device →
        Models (addMultiDevice c device d userInput robust) v := by
  rw [multiDeviceAssertions, models_append, models_append, and_assoc]
  exact and_congr Iff.rfl (and_congr Iff.rfl (models_flatMap_zipIdx fun device d =>
    addMultiDevice c device d userInput robust))

/-! ## `SynthesizeMultiDevice` -/

/-- What the filters of the enumerations add for a view of a device. -/
def enumeratedSize (app : App Prob) (o : Orientation) (src : Z3View) (entry : Enumerated K) :
    Expr K := fun v =>
  if entry.size = .fixed then
    implies (v.select (entry.name src))
      (decide (src.positionStart v + (app.views[src.pos]?).elim 0 (·.size o) = src.positionEnd v))
  else
    -- The third filter declares no `cond`: the name is the function `z3::cond`, and that is true.
    implies true (decide (0 ≤ src.positionEnd v - src.positionStart v))

/-- The loop body for one device. The bounds on the sizes skip no view here. -/
def addEnumerated (app : App Prob) (o : Orientation) (device : App Prob) (deviceId : Nat) :
    List (Expr K) :=
  let refViews := convertViews app o 0
  let views := convertViews device o (deviceId + 1)
  assertRoot views ++
    ((loop 1 refViews.length).flatMap fun i =>
      assertSizeBound (findView refViews i) (findView views i)) ++
    assertKeepsLook app o device deviceId ++
    ((nonRoot views).flatMap fun src => (enumerated o src views).map (enumeratedSize app o src)) ++
    enumeratedAssertions o views

/-- The assertions and assumptions of `SynthesizeMultiDevice`. The bias is free. -/
def synthesizeMultiDeviceAssertions (app : App Prob) (deviceApps : List (App Prob))
    (o : Orientation) : List (Expr K) :=
  synthesizeAssertions app o ++
    deviceApps.zipIdx.flatMap fun device => addEnumerated app o device.1 device.2

theorem models_synthesizeMultiDevice {deviceApps : List (App Prob)} {v : Assignment K} :
    Models (synthesizeMultiDeviceAssertions app deviceApps o) v ↔
      Models (synthesizeAssertions app o) v ∧
      ∀ d device, deviceApps[d]? = some device → Models (addEnumerated app o device d) v := by
  rw [synthesizeMultiDeviceAssertions, models_append]
  exact and_congr Iff.rfl (models_flatMap_zipIdx (addEnumerated app o))

end InferUI
