import InferUI.Encoding
import Mathlib.Data.Rat.Floor

/-!
# Single-query synthesis

Both orientations and all devices in one query. `GetSatConstraintsSingleQuery` widens the
working set of one incremental solver until it is satisfiable, and then
`SynthesizeMultiDeviceProbSingleQueryInner` asserts the final working set again in a fresh
solver.
-/

namespace InferUI
open Store
variable {Prob K : Type}

/-- The positions of views to avoid, all together, in the next answer: `emptyViewIndices` are
pairs of a device and a view, and each entry of `blockingViews` has one view for each pair. -/
structure BlockingConstraintsHelper (Prob : Type) where
  emptyViewIndices : List (Nat × Nat)
  blockingViews : List (List (View Prob))

/-- `z3Views` gives the views of a device in an orientation. -/
def BlockingConstraintsHelper.addBlockingConstraints (helper : BlockingConstraintsHelper Prob)
    (z3Views : Nat → Orientation → List Z3View) : List (Expr K) :=
  helper.blockingViews.map fun views v =>
    !(helper.emptyViewIndices.zip views).all fun entry =>
      let horizontal := findView (z3Views entry.1.1 .horizontal) entry.1.2
      let vertical := findView (z3Views entry.1.1 .vertical) entry.1.2
      decide (entry.2.xleft = horizontal.positionStart v) &&
        decide (entry.2.xright = horizontal.positionEnd v) &&
        decide (entry.2.ytop = vertical.positionStart v) &&
        decide (entry.2.ybottom = vertical.positionEnd v)

def convertDevices (deviceApps : List (App Prob)) (deviceId : Nat) (o : Orientation) :
    List Z3View :=
  (deviceApps[deviceId]?).elim [] fun device => convertViews device o (deviceId + 1)

def assertBlocking (blocking : Option (BlockingConstraintsHelper Prob))
    (deviceApps : List (App Prob)) : List (Expr K) :=
  blocking.elim [] fun helper => helper.addBlockingConstraints (convertDevices deviceApps)

/-- The known positions among the first `n` views of a device, root apart. -/
def assertKnownPositions (n : Nat) (views : List Z3View) : List (Expr K) :=
  ((views.take n).drop 1).flatMap fun view =>
    if view.hasFixedPosition then view.assertPosition else []

def assertRoot (views : List Z3View) : List (Expr K) := (findView views 0).assertPosition

def orientations : List Orientation := [.horizontal, .vertical]

theorem mem_orientations (o : Orientation) : o ∈ orientations := by
  cases o <;> decide

section
variable [Field K] [LinearOrder K] [FloorRing K] {app : App Prob} {o : Orientation}

/-- The part of `AddConstraintsSingleQuery` for one device. -/
def addDevice (c : CandidateConstraints app o) (device : App Prob) (deviceId : Nat) :
    List (Expr K) :=
  let views := convertViews device o (deviceId + 1)
  assertKnownPositions app.views.length views ++ assertRoot views ++ addGenAttributes views c

/-- The loop body of `AddConstraintsSingleQuery` for one orientation. -/
def addOrientation (printed : Prob → K) (deviceApps : List (App Prob)) (opt : Bool)
    (enc : Encoder app o) : List (Expr K) × Encoder app o :=
  let views := convertViews app o 0
  let added := enc.addConstraintExprs views
  (addPositionConstraints views true ++ addAnchorConstraints views ++
      addSynAttributes printed views enc.candidates opt ++
      finishedAddingConstraints views added ++
      deviceApps.zipIdx.flatMap fun device => addDevice enc.candidates device.1 device.2,
    added.finishAdding)

def addConstraintsSingleQuery (printed : Prob → K) (deviceApps : List (App Prob)) (opt : Bool)
    (encoder : (o : Orientation) → Encoder app o) : List (Expr K) :=
  orientations.flatMap fun o => (addOrientation printed deviceApps opt (encoder o)).1

def getAllAssumptions (encoder : (o : Orientation) → Encoder app o) : List (Expr K) :=
  orientations.flatMap fun o => getAssumptions (convertViews app o 0) (encoder o)

/-- `AddConstraintsSingleQuery` on fresh views, with all their satisfied booleans true. -/
def singleQueryAssertions (printed : Prob → K) (deviceApps : List (App Prob)) (opt : Bool)
    (candidates : (o : Orientation) → CandidateConstraints app o) : List (Expr K) :=
  let encoder (o : Orientation) := Encoder.ofCandidates (candidates o)
  addConstraintsSingleQuery printed deviceApps opt encoder ++
    getAllAssumptions fun o => (addOrientation printed deviceApps opt (encoder o)).2

/-- `IncreaseRank` and `IncSatisfiedId` of one view. -/
def Encoder.increaseRankOf (enc : Encoder app o) (pos value : Nat) : Encoder app o :=
  { enc with
    candidates := enc.candidates.increaseRankOf pos value
    satisfiedId := Function.update enc.satisfiedId pos (enc.satisfiedId pos + 1) }

/-- What a round widens: all views in every 20th try, else the views of the unsat core. -/
def Encoder.widen (enc : Encoder app o) (numTries : Nat) (core : List Nat) : Encoder app o :=
  if numTries % 20 = 0 then
    (convertViews app o 0).foldl (fun enc view => enc.increaseRankOf view.pos 5) enc
  else core.foldl (fun enc pos => enc.increaseRankOf pos 10) enc

/-- What a round asserts for one orientation. -/
def addMoreConstraints (printed : Prob → K) (deviceApps : List (App Prob)) (enc : Encoder app o) :
    List (Expr K) × Encoder app o :=
  let views := convertViews app o 0
  let added := (enc.addConstraintExprs views).finishAdding
  (addSynAttributes printed views enc.candidates false ++
      (deviceApps.zipIdx.flatMap fun device =>
        addGenAttributes (convertViews device.1 o (device.2 + 1)) enc.candidates) ++
      finishedAddingConstraints views added,
    added)

/-- The state of `GetSatConstraintsSingleQuery` before each of its checks. -/
structure SingleQuery (app : App Prob) (K : Type) where
  encoder : (o : Orientation) → Encoder app o
  assertions : List (Expr K)
  numTries : Nat

namespace SingleQuery

def start (printed : Prob → K) (deviceApps : List (App Prob))
    (blocking : Option (BlockingConstraintsHelper Prob))
    (candidates : (o : Orientation) → CandidateConstraints app o) : SingleQuery app K where
  encoder o := (addOrientation printed deviceApps false (.ofCandidates (candidates o))).2
  assertions :=
    addConstraintsSingleQuery printed deviceApps false (fun o => .ofCandidates (candidates o)) ++
      assertBlocking blocking deviceApps
  numTries := 0

/-- One round of the loop; `core` is what the solver reports, by orientation. -/
def round (printed : Prob → K) (deviceApps : List (App Prob)) (st : SingleQuery app K)
    (core : Orientation → List Nat) : SingleQuery app K :=
  let widened (o : Orientation) := (st.encoder o).widen (st.numTries + 1) (core o)
  { encoder := fun o => (addMoreConstraints printed deviceApps (widened o)).2
    assertions := st.assertions ++
      orientations.flatMap fun o => (addMoreConstraints printed deviceApps (widened o)).1
    numTries := st.numTries + 1 }

/-- The state after a round for each entry of `cores`. -/
def run (printed : Prob → K) (deviceApps : List (App Prob))
    (blocking : Option (BlockingConstraintsHelper Prob))
    (candidates : (o : Orientation) → CandidateConstraints app o)
    (cores : List (Orientation → List Nat)) : SingleQuery app K :=
  cores.foldl (round printed deviceApps) (start printed deviceApps blocking candidates)

/-- What is checked: the assertions so far, under the current assumptions. -/
def query (st : SingleQuery app K) : List (Expr K) := st.assertions ++ getAllAssumptions st.encoder

/-- The hard constraints of `SynthesizeMultiDeviceProbSingleQueryInner`, which start from the
candidates that the rounds leave behind. -/
def oneShot (printed : Prob → K) (deviceApps : List (App Prob))
    (blocking : Option (BlockingConstraintsHelper Prob)) (opt : Bool) (st : SingleQuery app K) :
    List (Expr K) :=
  let encoder (o : Orientation) := Encoder.ofCandidates (st.encoder o).candidates.resetAdding
  addConstraintsSingleQuery printed deviceApps opt encoder ++ assertBlocking blocking deviceApps ++
    getAllAssumptions fun o => (addOrientation printed deviceApps opt (encoder o)).2

end SingleQuery
end

/-- The candidates with which the single query starts. -/
def initialCandidates {app : App Prob} (scorers : (o : Orientation) → ConstraintCache app o)
    (o : Orientation) : CandidateConstraints app o :=
  (CandidateConstraints.ofScorer (scorers o)).increaseRank 5

/-- Both apps of the sample laid out by margins from the start of the root. -/
def sampleModel : Assignment ℚ where
  positionStart u _ := if u = 1 then 10 else if u = 1001 then 20 else 0
  positionEnd u d :=
    if u = 1 then 30 else if u = 1001 then 60
    else if d = 0 then 100 else if u = 0 then 200 else 300
  marginStart u := if u = 1 then 10 else if u = 1001 then 20 else 0
  marginEnd _ := 0
  anchor u := if u % 1000 = 0 then 0 else 1
  bias _ := 1 / 2
  cost _ := 0
  satisfied _ _ := true
  select name :=
    decide (name = ⟨.l2l, .fixed, .horizontal, 1, 0, -1⟩ ∨
      name = ⟨.t2t, .fixed, .vertical, 1, 0, -1⟩)

theorem sampleModel_models : Models (singleQueryAssertions id [sampleDevice] false
    (initialCandidates sampleCache)) sampleModel := by
  decide +kernel

end InferUI
