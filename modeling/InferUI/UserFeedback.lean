import InferUI.Blocking
import InferUI.DoWhile
import InferUI.LayoutSolver
import InferUI.Request

/-!
# Synthesis with user feedback

`UserFeedbackSynthesis` of `dataset_util.cpp`: the synthesizer is called until its layout, resized
to every device, is the one the user has in mind. After each call one view that is elsewhere is
given to it. A view that is still elsewhere at the end, or had to be given, counts as fixed.
-/

namespace InferUI
open DoWhile
variable {Prob : Type}

inductive Status where
  | success | unsat | invalid | timeout | unknown
  deriving DecidableEq

structure SynResult (Prob : Type) where
  app : App Prob
  status : Status

/-- The positions of the other view. -/
def View.setPositionOf (view other : View Prob) : View Prob :=
  { view with
    xleft := other.xleft
    xright := other.xright
    ytop := other.ytop
    ybottom := other.ybottom }

/-- `EmptyApp`. -/
def emptyApp (ref : App Prob) : App Prob :=
  App.ofViews (ref.views.map fun view =>
    if view.isContentFrame then
      { xleft := view.xleft, ytop := view.ytop, xright := view.xright, ybottom := view.ybottom,
        id := view.id }
    else { xleft := -1, ytop := -1, xright := -1, ybottom := -1, id := view.id })

namespace UserFeedback

/-! ## The specification -/

/-- `per_device_fixed_views` and `gen_apps`. -/
structure Spec (Prob : Type) where
  fixedViews : List (Finset Nat)
  genApps : List (App Prob)

/-- The position of a view is given by the user. -/
def Spec.fix (spec : Spec Prob) (d v : Nat) (truth : View Prob) : Spec Prob where
  fixedViews := spec.fixedViews.modify d (insert v)
  genApps := spec.genApps.modify d fun device =>
    device.modifyView v (fun view => view.setPositionOf truth) fun _ => rfl

/-- The views of both apps have the same coordinates. -/
def sameAt (groundTruth app : App Prob) (j : Nat) : Bool :=
  match groundTruth.views[j]?, app.views[j]? with
  | some srcView, some synView => App.viewMatch srcView synView
  | _, _ => false

/-- `FindNonEqualViews`; `none` when a view is looked up that the app does not have. -/
def findNonEqualViews (groundTruth app : App Prob) : Option (List Nat) :=
  let ids := List.range' 1 (groundTruth.views.length - 1)
  if ∀ j ∈ ids, j < app.views.length then some (ids.filter fun j => !sameAt groundTruth app j)
  else none

/-- `AddInconsistentViewToSpec` for the remaining devices; `some none` when it returns false. -/
def addInconsistentViewToSpec (resized : Device → Nat → Option (App Prob)) (apps : List (App Prob))
    (spec : Spec Prob) : List (Device × Nat) → Option (Option (Spec Prob))
  | [] => some none
  | (device, d) :: rest => do
    let groundTruth ← apps[d]?
    let resizedSynApp ← resized device d
    let viewIds ← findNonEqualViews groundTruth resizedSynApp
    let fixed ← spec.fixedViews[d]?
    match viewIds.find? fun v => decide (v ∉ fixed) with
    | none => addInconsistentViewToSpec resized apps spec rest
    | some v => do
      let _ ← viewAt spec.genApps d v
      let truth ← groundTruth.views[v]?
      some (some (spec.fix d v truth))

/-- The views of one device that are elsewhere and not fixed. -/
def countNotInSpec (resized : Device → Nat → Option (App Prob)) (apps : List (App Prob))
    (fixedViews : List (Finset Nat)) (entry : Device × Nat) : Option Nat := do
  let groundTruth ← apps[entry.2]?
  let resizedSynApp ← resized entry.1 entry.2
  let viewIds ← findNonEqualViews groundTruth resizedSynApp
  let fixed ← fixedViews[entry.2]?
  some (viewIds.filter fun v => decide (v ∉ fixed)).length

def numInconsistentViewsNotInSpec (resized : Device → Nat → Option (App Prob))
    (apps : List (App Prob)) (fixedViews : List (Finset Nat)) (devices : List (Device × Nat)) :
    Option Nat :=
  (devices.mapM (countNotInSpec resized apps fixedViews)).map List.sum

/-! ## The loop -/

/-- What `Synthesize` calls. The number of the iteration is given to each of them, so nothing says
that an answer is given twice. `none` is a call that does not return. -/
structure Calls (Prob : Type) where
  baseSynthesizer : Nat → App Prob → List (App Prob) → Device → List Device → SynResult Prob
  /-- `SynthesizeMultipleAppsSingleQuery`, which is given `gen_apps` by reference. -/
  fallbackSynthesizer : Nat → App Prob → List (App Prob) → SynResult Prob × List (App Prob)
  /-- `TryFixInconsistencies` and `NormalizeMargins`. -/
  fixInconsistencies : Nat → App Prob → Option (App Prob)
  /-- The last number is that of the device. -/
  layoutResizeApp : Nat → App Prob → Device → Device → Nat → Option (App Prob)

structure Flags where
  baseSynFallback : Bool
  fixInconsistencies : Bool

/-- The arguments of `Synthesize`. -/
structure Input (Prob : Type) where
  app : App Prob
  apps : List (App Prob)
  refDevice : Device
  devices : List Device

structure Loop (Prob : Type) where
  iteration : Nat
  spec : Spec Prob
  lastSuccess : SynResult Prob

variable (calls : Calls Prob) (flags : Flags) (input : Input Prob)

/-- The state before the loop. -/
def start : Loop Prob where
  iteration := 0
  spec := ⟨input.apps.map fun _ => ∅, input.apps.map emptyApp⟩
  lastSuccess := ⟨.ofViews [], .invalid⟩

/-- The answer of the synthesizers, and `gen_apps` as they leave it. -/
def answer (st : Loop Prob) : SynResult Prob × List (App Prob) :=
  let res := calls.baseSynthesizer st.iteration input.app st.spec.genApps input.refDevice
    input.devices
  if res.status ≠ .success ∧ flags.baseSynFallback = true then
    calls.fallbackSynthesizer st.iteration input.app st.spec.genApps
  else (res, st.spec.genApps)

/-- The repair that the flag `fix_inconsistencies` asks for. -/
def repaired (iteration : Nat) (app : App Prob) : Option (App Prob) :=
  if flags.fixInconsistencies then calls.fixInconsistencies iteration app else some app

/-- The rest of the body after a success: the result and the specification with one view more. -/
def feedback (iteration : Nat) (spec : Spec Prob) (res : SynResult Prob) :
    Option (SynResult Prob × Option (Spec Prob)) := do
  let app ← repaired calls flags iteration res.app
  let added ← addInconsistentViewToSpec
    (calls.layoutResizeApp iteration app input.refDevice) input.apps spec input.devices.zipIdx
  some ({ res with app := app }, added)

/-- The body of the loop. It leaves with `res`, or with nothing when a call does not return. -/
def body (st : Loop Prob) : Next (Loop Prob) (Option (SynResult Prob × Loop Prob)) :=
  let res := (answer calls flags input st).1
  let spec := { st.spec with genApps := (answer calls flags input st).2 }
  if res.status ≠ .success then .leave (some (res, { st with spec := spec }))
  else
    match feedback calls flags input st.iteration spec res with
    | none => .leave none
    | some (res', none) => .leave (some (res', ⟨st.iteration, spec, res⟩))
    | some (_, some spec') => .again ⟨st.iteration + 1, spec', res⟩

/-- What a call of `Synthesize` returns and adds to the two counters. -/
structure Outcome (Prob : Type) where
  res : SynResult Prob
  fixedViews : Nat
  totalViews : Int

/-- The last success. If there was none the fallback synthesizer is asked once more. -/
def lastSuccess (st : Loop Prob) : SynResult Prob :=
  if st.lastSuccess.status ≠ .success then
    (calls.fallbackSynthesizer (st.iteration + 1) input.app st.spec.genApps).1
  else st.lastSuccess

/-- The counting for the result that is returned; `none` is a failed `CHECK`. -/
def account (res : SynResult Prob) (st : Loop Prob) : Option (Outcome Prob) := do
  let numInconsistentViews ← numInconsistentViewsNotInSpec
    (calls.layoutResizeApp (st.iteration + 1) res.app input.refDevice) input.apps
    st.spec.fixedViews input.devices.zipIdx
  if res.status ≠ .success ∧ numInconsistentViews ≠ 0 then none
  else some {
    res := res
    fixedViews := numInconsistentViews + (st.spec.fixedViews.map Finset.card).sum
    totalViews := ((input.app.views.length : Int) - 1) * input.apps.length }

/-- After the loop. -/
def finish (res : SynResult Prob) (st : Loop Prob) : Option (Outcome Prob) :=
  if (lastSuccess calls input st).status ≠ .success then none
  else account calls input (if res.status ≠ .success then lastSuccess calls input st else res) st

/-- `Synthesize`. `none` when the loop takes more iterations than the fuel, `some none` when the
call does not return for another reason. -/
def synthesize (fuel : Nat) : Option (Option (Outcome Prob)) :=
  if ∀ app ∈ input.apps, ∀ view ∈ app.views, view.hasFixedPosition = true then
    (run (body calls flags input) fuel (start input)).map fun
      | none => none
      | some (res, st) => finish calls input res st
  else some none

/-! ## One view more -/

section
variable {calls flags input}
variable {resized : Device → Nat → Option (App Prob)} {apps : List (App Prob)}
  {spec spec' : Spec Prob}

theorem findNonEqualViews_spec {groundTruth app : App Prob} {viewIds : List Nat}
    (h : findNonEqualViews groundTruth app = some viewIds) :
    viewIds.Nodup ∧ ∀ v ∈ viewIds, 1 ≤ v ∧ v < groundTruth.views.length := by
  unfold findNonEqualViews at h
  rw [Option.ite_none_right_eq_some, Option.some.injEq] at h
  obtain ⟨_, rfl⟩ := h
  refine ⟨List.Nodup.filter _ List.nodup_range', fun v hv => ?_⟩
  have hrange := List.mem_range'_1.mp (List.mem_of_mem_filter hv)
  omega

/-- The view that is added: one of the ground truth, not the root and not fixed before. -/
structure Added (apps : List (App Prob)) (spec spec' : Spec Prob) (d v : Nat) : Prop where
  notRoot : 1 ≤ v
  isNew : ∃ fixed, spec.fixedViews[d]? = some fixed ∧ v ∉ fixed
  isFixed : ∃ truth, viewAt apps d v = some truth ∧ spec' = spec.fix d v truth

theorem addInconsistentViewToSpec_added {devices : List (Device × Nat)}
    (h : addInconsistentViewToSpec resized apps spec devices = some (some spec')) :
    ∃ entry ∈ devices, ∃ v, Added apps spec spec' entry.2 v := by
  induction devices with
  | nil => cases h
  | cons entry rest ih =>
    obtain ⟨device, d⟩ := entry
    simp only [addInconsistentViewToSpec, Option.bind_eq_bind, Option.bind_eq_some_iff] at h
    obtain ⟨groundTruth, htruth, resizedSynApp, _, viewIds, hids, fixed, hfixed, h⟩ := h
    cases hfind : viewIds.find? fun v => decide (v ∉ fixed) with
    | none =>
      rw [hfind] at h
      obtain ⟨entry, hentry, hadded⟩ := ih h
      exact ⟨entry, List.mem_cons_of_mem _ hentry, hadded⟩
    | some v =>
      simp only [hfind, Option.bind_eq_some_iff, Option.some.injEq] at h
      obtain ⟨_, _, truth, hview, rfl⟩ := h
      obtain ⟨hpos, _⟩ := (findNonEqualViews_spec hids).2 v (List.mem_of_find?_eq_some hfind)
      have hnew := List.find?_some hfind
      exact ⟨(device, d), List.mem_cons_self, v, hpos, ⟨fixed, hfixed, by simpa using hnew⟩,
        truth, by rw [viewAt, htruth, Option.bind_some, hview], rfl⟩

/-- An iteration that is not the last one had an answer and added a view. -/
theorem body_again {st next : Loop Prob} (h : body calls flags input st = .again next) :
    (answer calls flags input st).1.status = .success ∧ next.iteration = st.iteration + 1 ∧
      ∃ d < input.devices.length, ∃ v, Added input.apps
        { st.spec with genApps := (answer calls flags input st).2 } next.spec d v := by
  simp only [body] at h
  split at h
  · cases h
  · rename_i hstatus
    split at h
    · cases h
    · cases h
    · rename_i hfeedback
      obtain rfl := Next.again.inj h
      simp only [feedback, Option.bind_eq_bind, Option.bind_eq_some_iff, Option.some.injEq,
        Prod.mk.injEq] at hfeedback
      obtain ⟨_, _, _, hadd, _, rfl⟩ := hfeedback
      obtain ⟨⟨device, d⟩, hentry, v, hadded⟩ := addInconsistentViewToSpec_added hadd
      obtain ⟨_, hd, _⟩ := List.mem_zipIdx hentry
      exact ⟨not_not.mp hstatus, rfl, d, by omega, v, hadded⟩

/-- The last iteration fixes no view. -/
theorem body_leave {st final : Loop Prob} {res : SynResult Prob}
    (h : body calls flags input st = .leave (some (res, final))) :
    final.spec.fixedViews = st.spec.fixedViews := by
  simp only [body] at h
  split at h
  · cases h
    rfl
  · split at h <;> cases h
    rfl

/-! ## Accounting -/

def Spec.numFixed (spec : Spec Prob) : Nat := (spec.fixedViews.map Finset.card).sum

/-- Fixed views are views of the app other than the root, of one set for each device. -/
structure Consistent (input : Input Prob) (fixedViews : List (Finset Nat)) : Prop where
  length : fixedViews.length = input.apps.length
  inside : ∀ fixed ∈ fixedViews, fixed ⊆ Finset.Ico 1 input.app.views.length

theorem card_modify_insert {sets : List (Finset Nat)} {d v : Nat} {fixed : Finset Nat}
    (hget : sets[d]? = some fixed) (hnew : v ∉ fixed) :
    ((sets.modify d (insert v)).map Finset.card).sum = (sets.map Finset.card).sum + 1 := by
  induction sets generalizing d with
  | nil => simp at hget
  | cons set sets ih =>
    cases d with
    | zero =>
      obtain rfl : set = fixed := by simpa using hget
      simp only [List.modify_zero_cons, List.map_cons, List.sum_cons,
        Finset.card_insert_of_notMem hnew]
      omega
    | succ d =>
      simp only [List.modify_succ_cons, List.map_cons, List.sum_cons, ih (by simpa using hget)]
      omega

theorem Consistent.numFixed_le (h : Consistent input spec.fixedViews) :
    spec.numFixed ≤ input.apps.length * (input.app.views.length - 1) := by
  have hcard : ∀ n ∈ spec.fixedViews.map Finset.card, n ≤ input.app.views.length - 1 := by
    intro n hn
    obtain ⟨fixed, hfixed, rfl⟩ := List.mem_map.mp hn
    have := Finset.card_le_card (h.inside fixed hfixed)
    rwa [Nat.card_Ico] at this
  have hsum := List.sum_le_card_nsmul _ _ hcard
  rwa [List.length_map, h.length, smul_eq_mul] at hsum

/-- Adding a view keeps the fixed views consistent and fixes one more. -/
theorem Added.consistent {d v : Nat} (h : Added input.apps spec spec' d v)
    (hviews : ∀ app ∈ input.apps, app.views.length = input.app.views.length)
    (hspec : Consistent input spec.fixedViews) :
    Consistent input spec'.fixedViews ∧ spec'.numFixed = spec.numFixed + 1 := by
  obtain ⟨hpos, ⟨fixed, hfixed, hnew⟩, truth, htruth, rfl⟩ := h
  obtain ⟨groundTruth, hground, hview⟩ := Option.bind_eq_some_iff.mp htruth
  have hlt : v < input.app.views.length := by
    rw [← hviews groundTruth (List.mem_of_getElem? hground)]
    exact (List.getElem?_eq_some_iff.mp hview).1
  refine ⟨⟨?_, ?_⟩, card_modify_insert hfixed hnew⟩
  · rw [Spec.fix, List.length_modify, hspec.length]
  · intro set hset
    obtain ⟨i, hi⟩ := List.mem_iff_getElem?.mp hset
    rw [Spec.fix, List.getElem?_modify] at hi
    obtain ⟨old, hold, rfl⟩ := Option.map_eq_some_iff.mp hi
    have hinside := hspec.inside old (List.mem_of_getElem? hold)
    split
    · exact Finset.insert_subset (Finset.mem_Ico.mpr ⟨hpos, hlt⟩) hinside
    · exact hinside

theorem countNotInSpec_le {entry : Device × Nat} {fixedViews : List (Finset Nat)}
    {fixed : Finset Nat} {count : Nat}
    (hviews : ∀ app ∈ input.apps, app.views.length = input.app.views.length)
    (hspec : Consistent input fixedViews) (hfixed : fixedViews[entry.2]? = some fixed)
    (h : countNotInSpec resized input.apps fixedViews entry = some count) :
    count + fixed.card ≤ input.app.views.length - 1 := by
  simp only [countNotInSpec, Option.bind_eq_bind, Option.bind_eq_some_iff, Option.some.injEq] at h
  obtain ⟨groundTruth, hground, _, _, viewIds, hids, fixed', hfixed', rfl⟩ := h
  obtain rfl := Option.some.inj (hfixed.symm.trans hfixed')
  obtain ⟨hnodup, hrange⟩ := findNonEqualViews_spec hids
  rw [hviews groundTruth (List.mem_of_getElem? hground)] at hrange
  -- the views counted and the fixed ones are different views
  have hdisjoint : Disjoint (viewIds.filter fun v => decide (v ∉ fixed)).toFinset fixed := by
    rw [Finset.disjoint_left]
    intro v hv
    simpa using (List.mem_filter.mp (List.mem_toFinset.mp hv)).2
  have hsubset : (viewIds.filter fun v => decide (v ∉ fixed)).toFinset ∪ fixed ⊆
      Finset.Ico 1 input.app.views.length := by
    apply Finset.union_subset _ (hspec.inside fixed (List.mem_of_getElem? hfixed))
    intro v hv
    exact Finset.mem_Ico.mpr (hrange v (List.mem_of_mem_filter (List.mem_toFinset.mp hv)))
  have hcard := Finset.card_le_card hsubset
  rwa [Finset.card_union_of_disjoint hdisjoint, Nat.card_Ico,
    List.toFinset_card_of_nodup (hnodup.filter _)] at hcard

theorem sum_add_card_le {counts : List Nat} {sets : List (Finset Nat)} {bound : Nat}
    (h : List.Forall₂ (fun count set => count + set.card ≤ bound) counts sets) :
    counts.sum + (sets.map Finset.card).sum ≤ sets.length * bound := by
  induction h with
  | nil => simp
  | cons hhead _ ih =>
    simp only [List.sum_cons, List.map_cons, List.length_cons, Nat.succ_mul]
    omega

/-- The views counted at the end and those that were given are different ones. -/
theorem numInconsistentViewsNotInSpec_le {fixedViews : List (Finset Nat)} {count : Nat}
    (hdevices : input.devices.length = input.apps.length)
    (hviews : ∀ app ∈ input.apps, app.views.length = input.app.views.length)
    (hspec : Consistent input fixedViews)
    (h : numInconsistentViewsNotInSpec resized input.apps fixedViews input.devices.zipIdx =
      some count) :
    count + (fixedViews.map Finset.card).sum ≤
      input.apps.length * (input.app.views.length - 1) := by
  unfold numInconsistentViewsNotInSpec at h
  obtain ⟨counts, hcounts, rfl⟩ := Option.map_eq_some_iff.mp h
  rw [mapM_eq_some_iff_forall₂] at hcounts
  have hlength : counts.length = fixedViews.length := by
    rw [← hcounts.length_eq, List.length_zipIdx, hdevices, hspec.length]
  rw [← hspec.length]
  apply sum_add_card_le
  rw [List.forall₂_iff_get]
  refine ⟨hlength, fun d hd hd' => ?_⟩
  have hdevice : d < input.devices.zipIdx.length := hcounts.length_eq ▸ hd
  have hcount := (List.forall₂_iff_get.mp hcounts).2 d hdevice hd
  have hentry : (input.devices.zipIdx.get ⟨d, hdevice⟩).2 = d := by simp
  apply countNotInSpec_le hviews hspec _ hcount
  rw [hentry, List.getElem?_eq_getElem hd']
  rfl

theorem start_consistent (input : Input Prob) : Consistent input (start input).spec.fixedViews where
  length := List.length_map _
  inside := by
    intro fixed hfixed
    obtain ⟨_, _, rfl⟩ := List.mem_map.mp hfixed
    exact Finset.empty_subset _

theorem body_consistent {st next : Loop Prob}
    (hviews : ∀ app ∈ input.apps, app.views.length = input.app.views.length)
    (hspec : Consistent input st.spec.fixedViews) (h : body calls flags input st = .again next) :
    Consistent input next.spec.fixedViews ∧ next.spec.numFixed = st.spec.numFixed + 1 := by
  obtain ⟨_, _, _, _, _, hadded⟩ := body_again h
  exact hadded.consistent hviews hspec

theorem numFixed_start (input : Input Prob) : (start input).spec.numFixed = 0 := by
  simp [Spec.numFixed, start]

theorem finish_le {res : SynResult Prob} {st : Loop Prob} {outcome : Outcome Prob}
    (hroot : 0 < input.app.views.length) (hdevices : input.devices.length = input.apps.length)
    (hviews : ∀ app ∈ input.apps, app.views.length = input.app.views.length)
    (hspec : Consistent input st.spec.fixedViews)
    (h : finish calls input res st = some outcome) :
    (outcome.fixedViews : Int) ≤ outcome.totalViews := by
  unfold finish account at h
  rw [Option.ite_none_left_eq_some, Option.bind_eq_bind, Option.bind_eq_some_iff] at h
  obtain ⟨_, count, hcount, h⟩ := h
  rw [Option.ite_none_left_eq_some, Option.some.injEq] at h
  obtain ⟨_, rfl⟩ := h
  have hle := numInconsistentViewsNotInSpec_le hdevices hviews hspec hcount
  have hcast : ((input.app.views.length - 1 : Nat) : Int) = input.app.views.length - 1 := by
    omega
  have hle' := Int.ofNat_le.mpr hle
  rw [Nat.cast_mul, hcast, mul_comm] at hle'
  exact hle'

section
variable (hviews : ∀ app ∈ input.apps, app.views.length = input.app.views.length) {n : Nat}
  {st next : Loop Prob}
include hviews

theorem after_consistent (h : After (body calls flags input) (start input) n st) :
    Consistent input st.spec.fixedViews :=
  h.invariant (start_consistent input) fun _ _ hspec hbody =>
    (body_consistent hviews hspec hbody).1

/-- Every round has fixed one view more, and there is a bound to those. -/
theorem after_le (hdevices : input.devices.length = input.apps.length)
    (h : After (body calls flags input) (start input) n st) :
    n ≤ input.devices.length * (input.app.views.length - 1) := by
  have hcount := h.count (start_consistent input) fun _ _ hspec hbody =>
    body_consistent hviews hspec hbody
  rw [numFixed_start, Nat.zero_add] at hcount
  rw [← hcount, hdevices]
  exact (after_consistent hviews h).numFixed_le

/-- A round that goes on fixes a view that was not fixed before. -/
theorem again_fixes (hbody : body calls flags input st = .again next) :
    ∃ d < input.devices.length, ∃ v, 1 ≤ v ∧ v < input.app.views.length ∧
      (∃ fixed, st.spec.fixedViews[d]? = some fixed ∧ v ∉ fixed) ∧
      next.spec.fixedViews = st.spec.fixedViews.modify d (insert v) := by
  obtain ⟨_, _, d, hd, v, hadded⟩ := body_again hbody
  obtain ⟨hpos, hnew, truth, htruth, hfix⟩ := hadded
  obtain ⟨groundTruth, hground, hview⟩ := Option.bind_eq_some_iff.mp htruth
  have hlt := (List.getElem?_eq_some_iff.mp hview).1
  rw [hviews groundTruth (List.mem_of_getElem? hground)] at hlt
  exact ⟨d, hd, v, hpos, hlt, hnew, by rw [hfix]; rfl⟩

end

end

/-- The loop goes on at most once for each view of each device, each time with a view that was not
fixed before, and no more views count as fixed than there are. -/
theorem feedback_loop_bounded (calls : Calls Prob) (flags : Flags) (input : Input Prob)
    (hroot : 0 < input.app.views.length) (hdevices : input.devices.length = input.apps.length)
    (hviews : ∀ app ∈ input.apps, app.views.length = input.app.views.length) :
    (∀ n st, After (body calls flags input) (start input) n st →
      n ≤ input.devices.length * (input.app.views.length - 1)) ∧
    (∀ n st next, After (body calls flags input) (start input) n st →
      body calls flags input st = .again next →
      ∃ d < input.devices.length, ∃ v, 1 ≤ v ∧ v < input.app.views.length ∧
        (∃ fixed, st.spec.fixedViews[d]? = some fixed ∧ v ∉ fixed) ∧
        next.spec.fixedViews = st.spec.fixedViews.modify d (insert v)) ∧
    (∃ outcome, synthesize calls flags input
      (input.devices.length * (input.app.views.length - 1) + 1) = some outcome) ∧
    ∀ fuel outcome, synthesize calls flags input fuel = some (some outcome) →
      (outcome.fixedViews : Int) ≤ outcome.totalViews := by
  have hbound (n : Nat) (st : Loop Prob)
      (h : After (body calls flags input) (start input) n st) := after_le hviews hdevices h
  refine ⟨hbound, fun _ _ _ _ hbody => again_fixes hviews hbody, ?_, ?_⟩
  · unfold synthesize
    split
    · obtain ⟨result, hrun⟩ := run_isSome hbound
      exact ⟨_, by rw [hrun, Option.map_some]⟩
    · exact ⟨none, rfl⟩
  · intro fuel outcome h
    unfold synthesize at h
    split at h
    · obtain ⟨result, hrun, hfinish⟩ := Option.map_eq_some_iff.mp h
      obtain ⟨k, st, hafter, hbody⟩ := After.start.last hrun
      match result, hfinish, hbody with
      | none, hfinish, _ => cases hfinish
      | some (res, final), hfinish, hbody =>
        have hspec : Consistent input final.spec.fixedViews := by
          rw [body_leave hbody]
          exact after_consistent hviews hafter
        exact finish_le hroot hdevices hviews hspec hfinish
    · cases h

/-! ## A synthesizer that fails -/

/-- Two views side by side, in a content frame of some width and with some left sides. -/
def rowApp (width left₁ left₂ : Int) : App ℚ :=
  .ofViews [⟨0, 0, width, 100, 0, 0, fun _ => none, fun _ => none⟩,
    ⟨left₁, 40, left₁ + 20, 60, 1, 0, fun _ => none, fun _ => none⟩,
    ⟨left₂, 40, left₂ + 20, 60, 2, 0, fun _ => none, fun _ => none⟩]

/-- On a wider device the views keep their distance to the right. -/
def rowInput : Input ℚ where
  app := rowApp 100 10 50
  apps := [rowApp 200 110 150]
  refDevice := ⟨100, 100⟩
  devices := [⟨200, 100⟩]

/-- A model that places the first view on the left and the second one on the right. -/
def rowModel : Assignment ℚ where
  positionStart u d := if u = 1 then 10 else if u = 2 then (if d = 0 then 50 else 150) else 40
  positionEnd u d := if u = 1 then 30 else if u = 2 then (if d = 0 then 70 else 170) else 60
  marginStart _ := 0
  marginEnd _ := 0
  anchor _ := 1
  bias _ := 1 / 2
  cost _ := 0
  satisfied _ _ := true
  select _ := true

/-- The base synthesizer finds nothing. The fallback synthesizer does, and its layout leaves the
first view on the left when the screen becomes wider. -/
def failingCalls : Calls ℚ where
  baseSynthesizer _ app _ _ _ := ⟨app, .unsat⟩
  fallbackSynthesizer _ app apps := (⟨app, .success⟩, writePositions apps rowModel)
  fixInconsistencies _ app := some app
  layoutResizeApp _ _ _ device _ := some (rowApp device.width 10 150)

theorem feedback_loop_bounded_row :
    (∀ n st, After (body failingCalls ⟨true, false⟩ rowInput) (start rowInput) n st → n ≤ 2) ∧
      (∃ outcome, synthesize failingCalls ⟨true, false⟩ rowInput 3 = some outcome) ∧
      ∀ fuel outcome, synthesize failingCalls ⟨true, false⟩ rowInput fuel = some (some outcome) →
        (outcome.fixedViews : Int) ≤ outcome.totalViews := by
  obtain ⟨hbound, _, hreturns, hcounts⟩ :=
    feedback_loop_bounded failingCalls ⟨true, false⟩ rowInput (by decide) rfl (by decide)
  exact ⟨hbound, hreturns, hcounts⟩

/-- The first view is given in the first iteration, and the second iteration is the last. -/
example : (synthesize failingCalls ⟨true, false⟩ rowInput 3).map (Option.map fun outcome =>
    (outcome.fixedViews, outcome.totalViews)) = some (some (1, 2)) := by decide +kernel

end UserFeedback
end InferUI
