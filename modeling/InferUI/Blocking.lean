import InferUI.Anchored

/-!
# Enumerating candidates of the single query

`SynthesizeLayoutMultiAppsProbSingleQueryCandidates` answers the single query again and again.
What an answer says of the views without a fixed position is written to the device apps, and
`BlockingConstraintsHelper` keeps it out of every later query.
-/

namespace InferUI
open Store
variable {Prob K : Type}

/-! ## The views of the device apps -/

/-- `device_apps[d].GetViews()[p]`. -/
def viewAt (deviceApps : List (App Prob)) (d p : Nat) : Option (View Prob) :=
  (deviceApps[d]?).bind fun device => device.views[p]?

namespace View

def position (view : View Prob) : Int × Int × Int × Int :=
  (view.xleft, view.ytop, view.xright, view.ybottom)

def setPosition (view : View Prob) (start «end» : Int) : Orientation → View Prob
  | .horizontal => { view with xleft := start, xright := «end» }
  | .vertical => { view with ytop := start, ybottom := «end» }

/-- What `ResetViews` does to a view. -/
def reset (view : View Prob) : View Prob :=
  { view with xleft := -1, xright := -1, ytop := -1, ybottom := -1 }

/-- The copy of a view that `AddViews` keeps. -/
def recorded (view : View Prob) : View Prob where
  xleft := view.xleft
  ytop := view.ytop
  xright := view.xright
  ybottom := view.ybottom
  id := view.id

@[simp] theorem pos_setPosition (view : View Prob) (start «end» : Int) (o : Orientation) :
    (view.setPosition start «end» o).pos = view.pos := by
  cases o <;> rfl

@[simp] theorem pos_reset (view : View Prob) : view.reset.pos = view.pos := rfl

@[simp] theorem reset_reset (view : View Prob) : view.reset.reset = view.reset := rfl

end View

namespace App

/-- Each view replaced by one for the same place. -/
def updateViews (app : App Prob) (f : Nat → View Prob → View Prob)
    (hf : ∀ p view, (f p view).pos = view.pos) : App Prob where
  views := app.views.mapIdx f
  pos_eq := by
    intro p view h
    rw [List.getElem?_mapIdx, Option.map_eq_some_iff] at h
    obtain ⟨old, ho, rfl⟩ := h
    rw [hf]
    exact app.pos_eq p old ho

def modifyView (app : App Prob) (p : Nat) (f : View Prob → View Prob)
    (hf : ∀ view, (f view).pos = view.pos) : App Prob where
  views := app.views.modify p f
  pos_eq := by
    intro q view h
    rw [List.getElem?_modify] at h
    obtain ⟨old, ho, rfl⟩ := Option.map_eq_some_iff.mp h
    have := app.pos_eq q old ho
    split
    · rw [hf, this]
    · exact this

theorem ext_views {a b : App Prob} (h : a.views = b.views) : a = b := by
  cases a
  cases b
  cases h
  rfl

end App

/-- Device apps with the same views are the same. -/
theorem eq_of_viewAt {a b : List (App Prob)} (hlength : a.length = b.length)
    (h : ∀ d p, viewAt a d p = viewAt b d p) : a = b := by
  apply List.ext_getElem hlength
  intro d ha hb
  apply App.ext_views
  apply List.ext_getElem?
  intro p
  simpa [viewAt, ha, hb] using h d p

theorem viewAt_modifyView (deviceApps : List (App Prob)) (entry : Nat × Nat)
    {f : View Prob → View Prob} (hf : ∀ view, (f view).pos = view.pos) (d p : Nat) :
    viewAt (deviceApps.modify entry.1 fun device => device.modifyView entry.2 f hf) d p =
      (viewAt deviceApps d p).map fun view => if (d, p) = entry then f view else view := by
  obtain ⟨d', p'⟩ := entry
  rw [viewAt, viewAt, List.getElem?_modify]
  cases deviceApps[d]? with
  | none => rfl
  | some device =>
    by_cases hd : d' = d
    · by_cases hp : p' = p
      · simp [hd, hp, App.modifyView]
      · simp [hd, hp, App.modifyView, Ne.symm hp]
    · simp [hd, Ne.symm hd]

/-! ## The helper -/

namespace BlockingConstraintsHelper

/-- The constructor: view 0 is never listed. -/
def ofDevices (deviceApps : List (App Prob)) : BlockingConstraintsHelper Prob where
  emptyViewIndices := deviceApps.zipIdx.flatMap fun device =>
    (device.1.views.zipIdx.drop 1).filterMap fun view =>
      if view.1.hasFixedPosition then none else some (device.2, view.2)
  blockingViews := []

def addViews (helper : BlockingConstraintsHelper Prob) (deviceApps : List (App Prob)) :
    BlockingConstraintsHelper Prob :=
  { helper with
    blockingViews := helper.blockingViews ++ [helper.emptyViewIndices.filterMap fun entry =>
      (viewAt deviceApps entry.1 entry.2).map View.recorded] }

def resetViews (helper : BlockingConstraintsHelper Prob) (deviceApps : List (App Prob)) :
    List (App Prob) :=
  helper.emptyViewIndices.foldl (fun apps entry =>
    apps.modify entry.1 fun device => device.modifyView entry.2 View.reset View.pos_reset)
    deviceApps

theorem resetViews_congr {helper helper' : BlockingConstraintsHelper Prob}
    (h : helper.emptyViewIndices = helper'.emptyViewIndices) (deviceApps : List (App Prob)) :
    helper.resetViews deviceApps = helper'.resetViews deviceApps := by
  rw [resetViews, h]
  rfl

theorem mem_ofDevices {deviceApps : List (App Prob)} {d p : Nat} :
    (d, p) ∈ (ofDevices deviceApps).emptyViewIndices ↔
      p ≠ 0 ∧ ∃ view, viewAt deviceApps d p = some view ∧ view.hasFixedPosition = false := by
  simp only [ofDevices, List.mem_flatMap, List.mem_filterMap, viewAt, Prod.exists,
    List.mk_mem_zipIdx_iff_getElem?, Option.bind_eq_some_iff]
  constructor
  · rintro ⟨device, d', hd, view, p', hview, hentry⟩
    split at hentry
    · cases hentry
    · rename_i hfixed
      cases hentry
      obtain ⟨i, hi⟩ := List.mem_iff_getElem?.mp hview
      rw [List.getElem?_drop, List.getElem?_zipIdx, Option.map_eq_some_iff] at hi
      obtain ⟨w, hw, he⟩ := hi
      cases he
      refine ⟨by omega, view, ⟨device, hd, ?_⟩, by simpa using hfixed⟩
      simpa using hw
  · rintro ⟨hp, view, ⟨device, hd, hview⟩, hfixed⟩
    refine ⟨device, d, hd, view, p, ?_, by simp [hfixed]⟩
    obtain ⟨i, rfl⟩ := Nat.exists_eq_succ_of_ne_zero hp
    exact List.mem_iff_getElem?.mpr ⟨i, by simp [Nat.add_comm 1 i, hview]⟩

theorem viewAt_resetViews (helper : BlockingConstraintsHelper Prob) (deviceApps : List (App Prob))
    (d p : Nat) :
    viewAt (helper.resetViews deviceApps) d p = (viewAt deviceApps d p).map fun view =>
      if (d, p) ∈ helper.emptyViewIndices then view.reset else view := by
  rw [resetViews]
  induction helper.emptyViewIndices generalizing deviceApps with
  | nil => simp
  | cons entry rest ih =>
    rw [List.foldl_cons, ih, viewAt_modifyView, Option.map_map]
    congr 1
    funext view
    by_cases h : (d, p) = entry <;> by_cases hrest : (d, p) ∈ rest <;> simp [h, hrest]

theorem length_resetViews (helper : BlockingConstraintsHelper Prob) (deviceApps : List (App Prob)) :
    (helper.resetViews deviceApps).length = deviceApps.length := by
  rw [resetViews]
  induction helper.emptyViewIndices generalizing deviceApps with
  | nil => rfl
  | cons entry rest ih => rw [List.foldl_cons, ih, List.length_modify]

end BlockingConstraintsHelper

/-! ## The write-back -/

/-- The write-back to one device: the content view and the views with a fixed position keep
theirs. -/
def App.assignPositions (device : App Prob) (o : Orientation) (z3Views : List Z3View)
    (v : Assignment K) : App Prob :=
  device.updateViews
    (fun p view =>
      if p = 0 ∨ view.hasFixedPosition = true then view
      else view.setPosition ((findView z3Views p).positionStart v)
        ((findView z3Views p).positionEnd v) o)
    fun p view => by
      split
      · rfl
      · exact view.pos_setPosition ..

/-- The write-back of `SynthesizeMultiDeviceProbSingleQueryInner`, one orientation after the
other. -/
def writePositions (deviceApps : List (App Prob)) (v : Assignment K) : List (App Prob) :=
  orientations.foldl (fun apps o =>
    apps.mapIdx fun d device => device.assignPositions o (convertDevices deviceApps d o) v)
    deviceApps

/-- The view as a model places it on a device. -/
def View.placed (view : View Prob) (v : Assignment K) (d p : Nat) : View Prob :=
  { view with
    xleft := v.positionStart (uniqueId p .horizontal) (d + 1)
    xright := v.positionEnd (uniqueId p .horizontal) (d + 1)
    ytop := v.positionStart (uniqueId p .vertical) (d + 1)
    ybottom := v.positionEnd (uniqueId p .vertical) (d + 1) }

theorem findView_convertDevices {deviceApps : List (App Prob)} {d p : Nat} {view : View Prob}
    (h : viewAt deviceApps d p = some view) (o : Orientation) :
    findView (convertDevices deviceApps d o) p =
      ⟨p, o, d + 1, view.startAt o, view.endAt o⟩ := by
  obtain ⟨device, hd, hview⟩ := Option.bind_eq_some_iff.mp h
  rw [convertDevices, hd]
  exact findView_eq hview

/-- What a pass over an orientation does to view `p` of device `d`. -/
def View.writeBack (view : View Prob) (v : Assignment K) (d p : Nat) (o : Orientation) :
    View Prob :=
  if p = 0 ∨ view.hasFixedPosition = true then view
  else view.setPosition (v.positionStart (uniqueId p o) (d + 1))
    (v.positionEnd (uniqueId p o) (d + 1)) o

theorem viewAt_writePositions (deviceApps : List (App Prob)) (v : Assignment K) (d p : Nat) :
    viewAt (writePositions deviceApps v) d p = (viewAt deviceApps d p).map fun view =>
      (view.writeBack v d p .horizontal).writeBack v d p .vertical := by
  have pass (apps : List (App Prob)) (o : Orientation) :
      viewAt (apps.mapIdx fun d device =>
        device.assignPositions o (convertDevices deviceApps d o) v) d p =
      (viewAt apps d p).map fun view =>
        if p = 0 ∨ view.hasFixedPosition = true then view
        else view.setPosition ((findView (convertDevices deviceApps d o) p).positionStart v)
          ((findView (convertDevices deviceApps d o) p).positionEnd v) o := by
    rw [viewAt, viewAt, List.getElem?_mapIdx]
    cases apps[d]? with
    | none => rfl
    | some device =>
      simp only [Option.map_some, Option.bind_some, App.assignPositions, App.updateViews,
        List.getElem?_mapIdx]
  rw [writePositions, orientations, List.foldl_cons, List.foldl_cons, List.foldl_nil, pass, pass]
  cases h : viewAt deviceApps d p with
  | none => rfl
  | some view =>
    rw [findView_convertDevices h, findView_convertDevices h]
    rfl

/-- A view whose four coordinates are all unknown still has no fixed position when the second
orientation is written, so it gets all four. -/
theorem View.writeBack_reset (view : View Prob) (v : Assignment K) (d : Nat) {p : Nat}
    (hp : p ≠ 0) :
    (view.reset.writeBack v d p .horizontal).writeBack v d p .vertical = view.placed v d p := by
  simp [View.writeBack, hp, View.setPosition, View.hasFixedPosition, View.reset, View.placed]

theorem View.writeBack_kept {view : View Prob} {p : Nat}
    (h : p = 0 ∨ view.hasFixedPosition = true) (v : Assignment K) (d : Nat) (o : Orientation) :
    view.writeBack v d p o = view := if_pos h

theorem length_writePositions (deviceApps : List (App Prob)) (v : Assignment K) :
    (writePositions deviceApps v).length = deviceApps.length := by
  simp [writePositions, orientations]

/-! ## What the device apps look like in a pass -/

/-- The device apps that every pass starts from. -/
def blankDevices (deviceApps : List (App Prob)) : List (App Prob) :=
  (BlockingConstraintsHelper.ofDevices deviceApps).resetViews deviceApps

/-- An answer places the listed views and leaves the others alone. -/
theorem viewAt_answer (deviceApps : List (App Prob)) (v : Assignment K) (d p : Nat) :
    viewAt (writePositions (blankDevices deviceApps) v) d p =
      (viewAt deviceApps d p).map fun view =>
        if (d, p) ∈ (BlockingConstraintsHelper.ofDevices deviceApps).emptyViewIndices then
          view.placed v d p
        else view := by
  rw [viewAt_writePositions, blankDevices, BlockingConstraintsHelper.viewAt_resetViews]
  cases h : viewAt deviceApps d p with
  | none => rfl
  | some view =>
    have hlisted : (d, p) ∈ (BlockingConstraintsHelper.ofDevices deviceApps).emptyViewIndices ↔
        p ≠ 0 ∧ view.hasFixedPosition = false := by
      simp [BlockingConstraintsHelper.mem_ofDevices, h]
    by_cases hfree : (d, p) ∈ (BlockingConstraintsHelper.ofDevices deviceApps).emptyViewIndices
    · simp only [Option.map_some, if_pos hfree, View.writeBack_reset _ v d (hlisted.mp hfree).1]
    · have hkept : p = 0 ∨ view.hasFixedPosition = true := by
        by_cases hp : p = 0
        · exact .inl hp
        · exact .inr (by simpa [hlisted, hp] using hfree)
      simp only [Option.map_some, if_neg hfree, View.writeBack_kept hkept]

/-- Resetting the views again undoes an answer. -/
theorem resetViews_answer (deviceApps : List (App Prob)) (v : Assignment K) :
    (BlockingConstraintsHelper.ofDevices deviceApps).resetViews
      (writePositions (blankDevices deviceApps) v) = blankDevices deviceApps := by
  apply eq_of_viewAt
  · rw [BlockingConstraintsHelper.length_resetViews, length_writePositions]
  · intro d p
    rw [BlockingConstraintsHelper.viewAt_resetViews, viewAt_answer, blankDevices,
      BlockingConstraintsHelper.viewAt_resetViews, Option.map_map]
    congr 1
    funext view
    by_cases h : (d, p) ∈ (BlockingConstraintsHelper.ofDevices deviceApps).emptyViewIndices
    · simp only [Function.comp, if_pos h]
      rfl
    · simp only [Function.comp, if_neg h]

/-! ## What the blocking assertions say -/

/-- View `p` of device `d` is where a model places it. -/
def PlacedBy (deviceApps : List (App Prob)) (v : Assignment K) (d p : Nat) : Prop :=
  ∃ view, viewAt deviceApps d p = some view ∧ view.position = (view.placed v d p).position

theorem zip_filterMap_all {α β : Type} {xs : List α} {f : α → Option β} {g : α × β → Bool}
    (h : ∀ x ∈ xs, (f x).isSome = true) :
    (xs.zip (xs.filterMap f)).all g = true ↔ ∀ x ∈ xs, ∃ y, f x = some y ∧ g (x, y) = true := by
  induction xs with
  | nil => simp
  | cons x xs ih =>
    obtain ⟨y, hy⟩ := Option.isSome_iff_exists.mp (h x List.mem_cons_self)
    have hrest := ih fun z hz => h z (List.mem_cons_of_mem x hz)
    simp [hy, hrest]

/-- The assertions of a helper that recorded `candidates`: a model places some listed view in
another position than each of them. -/
theorem models_addBlockingConstraints {helper : BlockingConstraintsHelper Prob}
    {deviceApps : List (App Prob)} {candidates : List (List (App Prob))} {v : Assignment K}
    (hrecorded : helper.blockingViews = candidates.map fun candidate =>
      helper.emptyViewIndices.filterMap fun entry =>
        (viewAt candidate entry.1 entry.2).map View.recorded)
    (hrange : ∀ entry ∈ helper.emptyViewIndices, (viewAt deviceApps entry.1 entry.2).isSome = true)
    (hsame : ∀ candidate ∈ candidates, ∀ entry ∈ helper.emptyViewIndices,
      (viewAt candidate entry.1 entry.2).isSome = true) :
    Models (helper.addBlockingConstraints (convertDevices deviceApps)) v ↔
      ∀ candidate ∈ candidates, ∃ entry ∈ helper.emptyViewIndices,
        ¬ PlacedBy candidate v entry.1 entry.2 := by
  rw [BlockingConstraintsHelper.addBlockingConstraints, hrecorded, List.map_map, models_map]
  apply forall₂_congr
  intro candidate hc
  rw [Function.comp, Bool.not_eq_true', ← Bool.not_eq_true, zip_filterMap_all]
  · simp only [not_forall, exists_prop]
    apply exists_congr
    intro entry
    apply and_congr_right
    intro he
    obtain ⟨view, hview⟩ := Option.isSome_iff_exists.mp (hsame candidate hc entry he)
    obtain ⟨blank, hblank⟩ := Option.isSome_iff_exists.mp (hrange entry he)
    have hfind (o : Orientation) := findView_convertDevices hblank o
    have hplaced : PlacedBy candidate v entry.1 entry.2 ↔
        view.xleft = v.positionStart (uniqueId entry.2 .horizontal) (entry.1 + 1) ∧
        view.ytop = v.positionStart (uniqueId entry.2 .vertical) (entry.1 + 1) ∧
        view.xright = v.positionEnd (uniqueId entry.2 .horizontal) (entry.1 + 1) ∧
        view.ybottom = v.positionEnd (uniqueId entry.2 .vertical) (entry.1 + 1) := by
      simp [PlacedBy, hview, View.position, View.placed]
    rw [hplaced, hview]
    simp only [Option.map_some, Option.some.injEq, exists_eq_left', hfind, View.recorded,
      Z3View.positionStart, Z3View.positionEnd, Z3View.uniqueId, Bool.and_eq_true,
      decide_eq_true_eq]
    tauto
  · intro entry he
    rw [Option.isSome_map]
    exact hsame candidate hc entry he

/-! ## The candidates of a run -/

/-- What a pass of the loop of `SynthesizeLayoutMultiAppsProbSingleQueryCandidates` updates. -/
structure CandidateLoop (Prob : Type) where
  app : App Prob
  deviceApps : List (App Prob)
  helper : BlockingConstraintsHelper Prob

namespace CandidateLoop

def start (app : App Prob) (deviceApps : List (App Prob)) : CandidateLoop Prob :=
  ⟨app, deviceApps, .ofDevices deviceApps⟩

def resetDevices (st : CandidateLoop Prob) : List (App Prob) :=
  st.helper.resetViews st.deviceApps

/-- The callback is called with the app and the device apps. -/
def candidate (st : CandidateLoop Prob) : App Prob × List (App Prob) := (st.app, st.deviceApps)

end CandidateLoop

/-- The views that have no fixed position when a run begins. -/
def Free (deviceApps : List (App Prob)) (d p : Nat) : Prop :=
  ∃ view, viewAt deviceApps d p = some view ∧ view.hasFixedPosition = false

/-- Some view that had no fixed position is in two different places. -/
def Differ (deviceApps candidate candidate' : List (App Prob)) : Prop :=
  ∃ d p, Free deviceApps d p ∧ ∃ view view', viewAt candidate d p = some view ∧
    viewAt candidate' d p = some view' ∧ view.position ≠ view'.position

/-- A model puts every view that had no fixed position where a candidate has it. -/
def Repeats (deviceApps candidate : List (App Prob)) (v : Assignment K) : Prop :=
  ∀ d p, Free deviceApps d p → PlacedBy candidate v d p

/-- What the passes keep: the views that are reset and recorded are always those that were listed
in the beginning, and each candidate is an answer to a query on the same blank device apps. -/
structure Recorded (K : Type) (deviceApps : List (App Prob))
    (candidates : List (App Prob × List (App Prob))) (st : CandidateLoop Prob) : Prop where
  listed : st.helper.emptyViewIndices =
    (BlockingConstraintsHelper.ofDevices deviceApps).emptyViewIndices
  recorded : st.helper.blockingViews = candidates.map fun candidate =>
    st.helper.emptyViewIndices.filterMap fun entry =>
      (viewAt candidate.2 entry.1 entry.2).map View.recorded
  reset : st.resetDevices = blankDevices deviceApps
  answers : ∀ candidate ∈ candidates, ∃ v : Assignment K,
    candidate.2 = writePositions (blankDevices deviceApps) v

section
variable {deviceApps : List (App Prob)} {candidates : List (App Prob × List (App Prob))}
variable {st : CandidateLoop Prob} {v : Assignment K}

theorem Recorded.start (app : App Prob) (deviceApps : List (App Prob)) :
    Recorded K deviceApps [] (.start app deviceApps) where
  listed := rfl
  recorded := rfl
  reset := rfl
  answers := by
    intro candidate hc
    cases hc

theorem isSome_of_listed {entry : Nat × Nat}
    (h : entry ∈ (BlockingConstraintsHelper.ofDevices deviceApps).emptyViewIndices) :
    (viewAt deviceApps entry.1 entry.2).isSome = true := by
  obtain ⟨_, view, hview, _⟩ := BlockingConstraintsHelper.mem_ofDevices.mp h
  rw [hview]
  rfl

theorem Recorded.models_blocking (h : Recorded K deviceApps candidates st) :
    Models (assertBlocking (some st.helper) st.resetDevices) v ↔ ∀ candidate ∈ candidates,
      ∃ entry ∈ (BlockingConstraintsHelper.ofDevices deviceApps).emptyViewIndices,
        ¬ PlacedBy candidate.2 v entry.1 entry.2 := by
  have hmodels : Models (st.helper.addBlockingConstraints (convertDevices st.resetDevices)) v ↔
      ∀ candidate ∈ candidates.map Prod.snd, ∃ entry ∈ st.helper.emptyViewIndices,
        ¬ PlacedBy candidate v entry.1 entry.2 := by
    apply models_addBlockingConstraints
    · rw [h.recorded, List.map_map]
      rfl
    · intro entry he
      rw [h.reset, blankDevices, BlockingConstraintsHelper.viewAt_resetViews, Option.isSome_map]
      exact isSome_of_listed (h.listed ▸ he)
    · intro candidate hc entry he
      obtain ⟨c, hmem, rfl⟩ := List.mem_map.mp hc
      obtain ⟨w, hw⟩ := h.answers c hmem
      rw [hw, viewAt_answer, Option.isSome_map]
      exact isSome_of_listed (h.listed ▸ he)
  rw [assertBlocking, Option.elim_some, hmodels, List.forall_mem_map, h.listed]

/-- The content views, which are never listed, are in the same place in every model. -/
theorem repeats_iff {candidate : List (App Prob)} {w : Assignment K}
    (hc : candidate = writePositions (blankDevices deviceApps) w)
    (hroot : ∀ d root, viewAt (blankDevices deviceApps) d 0 = some root →
      PlacedBy (blankDevices deviceApps) v d 0) :
    Repeats deviceApps candidate v ↔
      ∀ entry ∈ (BlockingConstraintsHelper.ofDevices deviceApps).emptyViewIndices,
        PlacedBy candidate v entry.1 entry.2 := by
  constructor
  · intro h entry he
    exact h _ _ (BlockingConstraintsHelper.mem_ofDevices.mp he).2
  · intro h d p hfree
    by_cases hp : p = 0
    · subst hp
      obtain ⟨root, hview, _⟩ := hfree
      have hunlisted :
          (d, 0) ∉ (BlockingConstraintsHelper.ofDevices deviceApps).emptyViewIndices := by
        intro hmem
        exact (BlockingConstraintsHelper.mem_ofDevices.mp hmem).1 rfl
      have hblank : viewAt (blankDevices deviceApps) d 0 = some root := by
        rw [blankDevices, BlockingConstraintsHelper.viewAt_resetViews, hview, Option.map_some,
          if_neg hunlisted]
      obtain ⟨root', hroot', hplaced⟩ := hroot d root hblank
      obtain rfl := Option.some.inj (hblank.symm.trans hroot')
      refine ⟨root, ?_, hplaced⟩
      rw [hc, viewAt_answer, hview, Option.map_some, if_neg hunlisted]
    · exact h (d, p) (BlockingConstraintsHelper.mem_ofDevices.mpr ⟨hp, hfree⟩)

/-- A model outside the blocked ones gives a new candidate. -/
theorem Recorded.differ (h : Recorded K deviceApps candidates st)
    (hblocking : Models (assertBlocking (some st.helper) st.resetDevices) v)
    {candidate : App Prob × List (App Prob)} (hc : candidate ∈ candidates) :
    Differ deviceApps candidate.2 (writePositions (blankDevices deviceApps) v) := by
  obtain ⟨⟨d, p⟩, hlisted, hmoved⟩ := h.models_blocking.mp hblocking candidate hc
  obtain ⟨w, hw⟩ := h.answers candidate hc
  obtain ⟨_, view, hview, hfixed⟩ := BlockingConstraintsHelper.mem_ofDevices.mp hlisted
  have hold : viewAt candidate.2 d p = some (view.placed w d p) := by
    rw [hw, viewAt_answer, hview, Option.map_some, if_pos hlisted]
  have hnew : viewAt (writePositions (blankDevices deviceApps) v) d p =
      some (view.placed v d p) := by
    rw [viewAt_answer, hview, Option.map_some, if_pos hlisted]
  refine ⟨d, p, ⟨view, hview, hfixed⟩, _, _, hold, hnew, ?_⟩
  intro hsame
  exact hmoved ⟨_, hold, hsame⟩

end

/-! ## The two phases of a call -/

section
variable [Field K] [LinearOrder K] [FloorRing K] {app : App Prob}
variable {printed : Prob → K} {deviceApps : List (App Prob)}

namespace SingleQuery

/-- A call of `SynthesizeMultiDeviceProbSingleQuery` that succeeds: after the rounds for `cores`
the first phase is satisfiable, and `v` is the model of the second one, asked for with `opt` or,
when that fails, without. -/
structure Succeeds (printed : Prob → K) (scorers : (o : Orientation) → ConstraintCache app o)
    (deviceApps : List (App Prob)) (blocking : Option (BlockingConstraintsHelper Prob)) (opt : Bool)
    (cores : List (Orientation → List Nat)) (v : Assignment K) : Prop where
  rounds : cores.length ≤ 100
  satisfiable :
    Sat (run printed deviceApps blocking (initialCandidates scorers) cores).query
  model : ∃ attempt, (attempt = opt ∨ attempt = false) ∧
    Models (oneShot printed deviceApps blocking attempt
      (run printed deviceApps blocking (initialCandidates scorers) cores)) v

/-- `b` is `a` with the assertions `extra` besides. -/
structure Extends (extra : List (Expr K)) (a b : SingleQuery app K) : Prop where
  encoder : b.encoder = a.encoder
  numTries : b.numTries = a.numTries
  models : ∀ v, Models b.assertions v ↔ Models a.assertions v ∧ Models extra v

theorem Extends.round {extra : List (Expr K)} {a b : SingleQuery app K} (h : Extends extra a b)
    (core : Orientation → List Nat) :
    Extends extra (a.round printed deviceApps core) (b.round printed deviceApps core) where
  encoder := by simp only [SingleQuery.round, h.encoder, h.numTries]
  numTries := by simp only [SingleQuery.round, h.numTries]
  models v := by
    simp only [SingleQuery.round, models_append, h.models, h.encoder, h.numTries]
    tauto

theorem Extends.rounds {extra : List (Expr K)} (cores : List (Orientation → List Nat))
    {a b : SingleQuery app K} (h : Extends extra a b) :
    Extends extra (cores.foldl (SingleQuery.round printed deviceApps) a)
      (cores.foldl (SingleQuery.round printed deviceApps) b) := by
  induction cores generalizing a b with
  | nil => exact h
  | cons core rest ih => exact ih (h.round core)

/-- The blocking assertions stand beside everything else in the first phase. -/
theorem models_query_blocking {blocking : Option (BlockingConstraintsHelper Prob)}
    {candidates : (o : Orientation) → CandidateConstraints app o}
    {cores : List (Orientation → List Nat)} {v : Assignment K} :
    Models (run printed deviceApps blocking candidates cores).query v ↔
      Models (run printed deviceApps none candidates cores).query v ∧
        Models (assertBlocking blocking deviceApps) v := by
  have first : Extends (assertBlocking blocking deviceApps)
      (start printed deviceApps none candidates) (start printed deviceApps blocking candidates) :=
    ⟨rfl, rfl, fun v => by simp [start, assertBlocking]⟩
  have last : Extends (assertBlocking blocking deviceApps)
      (run printed deviceApps none candidates cores)
      (run printed deviceApps blocking candidates cores) := first.rounds cores
  rw [query, query, models_append, models_append, last.models, last.encoder]
  exact and_right_comm

theorem models_oneShot_blocking {blocking : Option (BlockingConstraintsHelper Prob)}
    {opt : Bool} {st : SingleQuery app K} {v : Assignment K} :
    Models (oneShot printed deviceApps blocking opt st) v ↔
      Models (oneShot printed deviceApps none opt st) v ∧
        Models (assertBlocking blocking deviceApps) v := by
  simp only [oneShot, models_append, assertBlocking, Option.elim_none, models_nil, and_true]
  exact and_right_comm

theorem models_rounds {cores : List (Orientation → List Nat)} {st : SingleQuery app K}
    {v : Assignment K}
    (h : Models (cores.foldl (SingleQuery.round printed deviceApps) st).assertions v) :
    Models st.assertions v := by
  induction cores generalizing st with
  | nil => exact h
  | cons core rest ih =>
    have := ih h
    rw [SingleQuery.round, models_append] at this
    exact this.1

/-- The content view of every device is asserted to be where it is. -/
theorem placedBy_root {opt : Bool} {encoder : (o : Orientation) → Encoder app o}
    {v : Assignment K} (h : Models (addConstraintsSingleQuery printed deviceApps opt encoder) v)
    {d : Nat} {root : View Prob} (hroot : viewAt deviceApps d 0 = some root) :
    PlacedBy deviceApps v d 0 := by
  obtain ⟨device, hd, hview⟩ := Option.bind_eq_some_iff.mp hroot
  have hedges (o : Orientation) : v.positionStart (uniqueId 0 o) (d + 1) = root.startAt o ∧
      v.positionEnd (uniqueId 0 o) (d + 1) = root.endAt o := by
    simp only [addConstraintsSingleQuery, models_flatMap, mem_orientations, forall_const] at h
    have ho := h o
    simp only [addOrientation, models_append] at ho
    have hdevice := (models_flatMap_zipIdx (addDevice (encoder o).candidates)).mp ho.2 d device hd
    simp only [addDevice, models_append] at hdevice
    exact (models_assertPosition hview).mp hdevice.1.2
  refine ⟨root, hroot, ?_⟩
  simp only [View.position, View.placed, (hedges .horizontal).1, (hedges .horizontal).2,
    (hedges .vertical).1, (hedges .vertical).2]
  rfl

end SingleQuery

/-! ## The loop -/

variable [Zero Prob]

/-- The loops of `AssignModel` over the views of the reference after an answer. -/
def assignLayout (c : (o : Orientation) → CandidateConstraints app o) (v : Assignment K)
    (layout : App Prob) : App Prob :=
  orientations.foldl (fun layout o =>
    assignModels (convertViews app o 0) (selectionNames (c o)) o v layout) layout

namespace CandidateLoop

/-- The first phase of the next pass. -/
def phase (printed : Prob → K) (scorers : (o : Orientation) → ConstraintCache app o)
    (st : CandidateLoop Prob) (cores : List (Orientation → List Nat)) : SingleQuery app K :=
  .run printed st.resetDevices (some st.helper) (initialCandidates scorers) cores

/-- What a pass leaves when `v` is the answer after the rounds for `cores`. -/
def pass (printed : Prob → K) (scorers : (o : Orientation) → ConstraintCache app o)
    (st : CandidateLoop Prob) (cores : List (Orientation → List Nat)) (v : Assignment K) :
    CandidateLoop Prob :=
  let encoder := (st.phase printed scorers cores).encoder
  let deviceApps := writePositions st.resetDevices v
  { app := assignLayout (fun o => (encoder o).candidates.resetAdding) v st.app
    deviceApps := deviceApps
    helper := st.helper.addViews deviceApps }

end CandidateLoop

/-- A run of the loop with the candidates that it passed to the callback. The queries are made
from the `app` of the call: of the views that the passes update they read nothing new. -/
inductive Enumerates (printed : Prob → K) (scorers : (o : Orientation) → ConstraintCache app o)
    (deviceApps : List (App Prob)) (opt : Bool) :
    List (App Prob × List (App Prob)) → CandidateLoop Prob → Prop
  | start : Enumerates printed scorers deviceApps opt [] (.start app deviceApps)
  | next {candidates : List (App Prob × List (App Prob))} {st : CandidateLoop Prob}
      {cores : List (Orientation → List Nat)} {v : Assignment K}
      (run : Enumerates printed scorers deviceApps opt candidates st)
      (answer : SingleQuery.Succeeds printed scorers st.resetDevices (some st.helper) opt cores v) :
      Enumerates printed scorers deviceApps opt
        (candidates ++ [(st.pass printed scorers cores v).candidate])
        (st.pass printed scorers cores v)

theorem Recorded.pass_deviceApps {candidates : List (App Prob × List (App Prob))}
    {st : CandidateLoop Prob} (h : Recorded K deviceApps candidates st)
    {scorers : (o : Orientation) → ConstraintCache app o} {cores : List (Orientation → List Nat)}
    {v : Assignment K} : (st.pass printed scorers cores v).deviceApps =
      writePositions (blankDevices deviceApps) v := by
  rw [CandidateLoop.pass, h.reset]

theorem Recorded.pass {candidates : List (App Prob × List (App Prob))} {st : CandidateLoop Prob}
    (h : Recorded K deviceApps candidates st)
    {scorers : (o : Orientation) → ConstraintCache app o}
    (cores : List (Orientation → List Nat)) (v : Assignment K) :
    Recorded K deviceApps (candidates ++ [(st.pass printed scorers cores v).candidate])
      (st.pass printed scorers cores v) where
  listed := h.listed
  recorded := by
    simp only [CandidateLoop.pass, BlockingConstraintsHelper.addViews, h.recorded,
      List.map_append, List.map_singleton, CandidateLoop.candidate]
  reset := by
    rw [← resetViews_answer deviceApps v, ← h.reset]
    exact BlockingConstraintsHelper.resetViews_congr h.listed _
  answers := by
    intro candidate hc
    rcases List.mem_append.mp hc with hc | hc
    · exact h.answers candidate hc
    · refine ⟨v, ?_⟩
      rw [List.mem_singleton.mp hc, CandidateLoop.candidate, h.pass_deviceApps]

theorem Enumerates.recorded {scorers : (o : Orientation) → ConstraintCache app o} {opt : Bool}
    {candidates : List (App Prob × List (App Prob))} {st : CandidateLoop Prob}
    (run : Enumerates printed scorers deviceApps opt candidates st) :
    Recorded K deviceApps candidates st := by
  induction run with
  | start => exact Recorded.start app deviceApps
  | next _ _ ih => exact ih.pass _ _

theorem map_assignModels {β : Type} {f : View Prob → β}
    (hf : ∀ view o attr, f (View.applyAttribute view o attr) = f view) (views : List Z3View)
    (constraints : Nat → List ConstraintData) (o : Orientation) (v : Assignment K)
    (layout : App Prob) :
    (assignModels views constraints o v layout).views.map f = layout.views.map f := by
  rw [assignModels]
  induction nonRoot views generalizing layout with
  | nil => rfl
  | cons view rest ih =>
    rw [List.foldl_cons, ih, Z3View.assignModel]
    cases (constraints view.pos).find? v.select with
    | none => rfl
    | some data =>
      apply List.ext_getElem?
      intro p
      simp only [Option.elim_some, App.applyAttribute, List.getElem?_map, List.getElem?_modify]
      by_cases hp : view.pos = p <;> cases layout.views[p]? <;> simp [hp, hf]

/-- The loop only writes attributes to the app. -/
theorem Enumerates.map_views {scorers : (o : Orientation) → ConstraintCache app o} {opt : Bool}
    {candidates : List (App Prob × List (App Prob))} {st : CandidateLoop Prob}
    (run : Enumerates printed scorers deviceApps opt candidates st) {β : Type} {f : View Prob → β}
    (hf : ∀ view o attr, f (View.applyAttribute view o attr) = f view) :
    st.app.views.map f = app.views.map f := by
  induction run with
  | start => rfl
  | next _ _ ih =>
    rw [CandidateLoop.pass, assignLayout, orientations, List.foldl_cons, List.foldl_cons,
      List.foldl_nil, map_assignModels hf, map_assignModels hf, ih]

/-- So every pass would make the same views and read the same sizes of it. -/
theorem Enumerates.convertViews_eq {scorers : (o : Orientation) → ConstraintCache app o}
    {opt : Bool} {candidates : List (App Prob × List (App Prob))} {st : CandidateLoop Prob}
    (run : Enumerates printed scorers deviceApps opt candidates st) (o : Orientation) (d : Nat) :
    convertViews st.app o d = convertViews app o d ∧
      st.app.views.map (·.size o) = app.views.map (·.size o) := by
  constructor
  · apply run.map_views
    intro view o' attr
    cases o <;> rfl
  · apply run.map_views
    intro view o' attr
    cases o <;> rfl

theorem Enumerates.distinct {scorers : (o : Orientation) → ConstraintCache app o} {opt : Bool}
    {candidates : List (App Prob × List (App Prob))} {st : CandidateLoop Prob}
    (run : Enumerates printed scorers deviceApps opt candidates st) :
    candidates.Pairwise fun a b => Differ deviceApps a.2 b.2 := by
  induction run with
  | start => exact List.Pairwise.nil
  | next run answer ih =>
    obtain ⟨_, _, hmodel⟩ := answer.model
    have hblocking := (SingleQuery.models_oneShot_blocking.mp hmodel).2
    rw [List.pairwise_append]
    refine ⟨ih, List.pairwise_singleton _ _, ?_⟩
    intro candidate hc new hnew
    rw [List.mem_singleton.mp hnew, CandidateLoop.candidate, run.recorded.pass_deviceApps]
    exact run.recorded.differ hblocking hc

/-- Any two candidates differ at a view that had no fixed position when the run began. In the
next pass, in both phases, the blocking assertions exclude exactly the models that repeat a
candidate on all of those views. -/
theorem candidates_distinct (printed : Prob → K)
    (scorers : (o : Orientation) → ConstraintCache app o) (deviceApps : List (App Prob))
    (opt : Bool) {candidates : List (App Prob × List (App Prob))} {st : CandidateLoop Prob}
    (run : Enumerates printed scorers deviceApps opt candidates st) :
    (candidates.Pairwise fun a b => Differ deviceApps a.2 b.2) ∧
    ∀ (cores : List (Orientation → List Nat)) (v : Assignment K),
      (Models (st.phase printed scorers cores).query v ↔
        Models (SingleQuery.run printed st.resetDevices none (initialCandidates scorers)
          cores).query v ∧ ∀ candidate ∈ candidates, ¬ Repeats deviceApps candidate.2 v) ∧
      ∀ attempt,
        (Models (SingleQuery.oneShot printed st.resetDevices (some st.helper) attempt
            (st.phase printed scorers cores)) v ↔
          Models (SingleQuery.oneShot printed st.resetDevices none attempt
            (st.phase printed scorers cores)) v ∧
          ∀ candidate ∈ candidates, ¬ Repeats deviceApps candidate.2 v) := by
  have hrecorded := run.recorded
  have exact_of_root {v : Assignment K}
      (hroot : ∀ d root, viewAt st.resetDevices d 0 = some root →
        PlacedBy st.resetDevices v d 0) :
      Models (assertBlocking (some st.helper) st.resetDevices) v ↔
        ∀ candidate ∈ candidates, ¬ Repeats deviceApps candidate.2 v := by
    rw [hrecorded.models_blocking]
    apply forall₂_congr
    intro candidate hc
    obtain ⟨w, hw⟩ := hrecorded.answers candidate hc
    rw [repeats_iff hw (hrecorded.reset ▸ hroot)]
    simp only [not_forall, exists_prop]
  refine ⟨run.distinct, ?_⟩
  intro cores v
  constructor
  · rw [CandidateLoop.phase, SingleQuery.models_query_blocking]
    apply and_congr_right
    intro h
    rw [SingleQuery.query, models_append] at h
    have hstart := SingleQuery.models_rounds h.1
    rw [SingleQuery.start, models_append] at hstart
    exact exact_of_root fun d root => SingleQuery.placedBy_root hstart.1
  · intro attempt
    rw [SingleQuery.models_oneShot_blocking]
    apply and_congr_right
    intro h
    rw [SingleQuery.oneShot, models_append, models_append] at h
    exact exact_of_root fun d root => SingleQuery.placedBy_root h.1.1

end

/-! ## Two candidates of the sample -/

/-- The sample laid out horizontally by the margin from the end of the root. -/
def sampleModelEnd : Assignment ℚ :=
  { sampleModel with
    positionStart := fun u d => if u = 1 ∧ d ≠ 0 then 110 else sampleModel.positionStart u d
    positionEnd := fun u d => if u = 1 ∧ d ≠ 0 then 130 else sampleModel.positionEnd u d
    marginEnd := fun u => if u = 1 then 70 else 0
    select := fun name => decide (name = ⟨.r2r, .fixed, .horizontal, 1, 0, -1⟩ ∨
      name = ⟨.t2t, .fixed, .vertical, 1, 0, -1⟩) }

def sampleFirst : CandidateLoop ℚ :=
  (CandidateLoop.start sampleApp [sampleDevice]).pass id sampleCache [] sampleModel

def sampleSecond : CandidateLoop ℚ := sampleFirst.pass id sampleCache [] sampleModelEnd

theorem sample_enumerated : Enumerates id sampleCache [sampleDevice] false
    [sampleFirst.candidate, sampleSecond.candidate] sampleSecond := by
  have first : Enumerates id sampleCache [sampleDevice] false [sampleFirst.candidate]
      sampleFirst := by
    apply Enumerates.next Enumerates.start
    refine ⟨by decide, ⟨sampleModel, ?_⟩, false, .inl rfl, ?_⟩ <;> decide +kernel
  apply Enumerates.next first
  refine ⟨by decide, ⟨sampleModelEnd, ?_⟩, false, .inl rfl, ?_⟩ <;> decide +kernel

theorem candidates_distinct_sample :
    [sampleFirst.candidate, sampleSecond.candidate].Pairwise fun a b =>
      Differ [sampleDevice] a.2 b.2 :=
  (candidates_distinct id sampleCache [sampleDevice] false sample_enumerated).1

end InferUI
