import InferUI.Properties
import InferUI.SingleScreen
import Mathlib.Data.Finset.Order

/-!
# What the robust assertions guarantee

The bounds on sizes and the order of edges are skipped for views whose position is known in the
reference, which the views of a reference always are. On a device that is wide enough the root
then stretches every view between its own margins, and nothing that was asserted forbids it.
-/

namespace InferUI
open Store CandidateConstraints
variable {Prob K : Type}

section
variable (ref : App Prob) (o : Orientation)

/-- What robust synthesis sets out to assert of one device. -/
structure KeepsLook (views : List Z3View) (v : Assignment K) : Prop where
  inside : ∀ p, p ≠ 0 → p < ref.views.length →
    let root := findView views 0
    let view := findView views p
    root.positionStart v ≤ view.positionStart v ∧ view.positionEnd v ≤ root.positionEnd v
  size : ∀ p view, p ≠ 0 → ref.views[p]? = some view → 0 < view.size o →
    let device := findView views p
    view.size o < 2 * (device.positionEnd v - device.positionStart v) ∧
      device.positionEnd v - device.positionStart v < 2 * view.size o
  order : ∀ i j, i ≠ 0 → i < j → j < ref.views.length → ref.numIntersections i j = 0 →
    KeepsOrder ref o i j views v

/-- No bound on a size and no order of a pair is skipped for its known positions. -/
structure NothingSkipped : Prop where
  size : ∀ p view, p ≠ 0 → ref.views[p]? = some view → 0 < view.size o →
    (findView (convertViews ref o 0) p).hasFixedPosition = false
  order : ∀ i j, i ≠ 0 → i < j → j < ref.views.length → ref.numIntersections i j = 0 →
    ¬ ((findView (convertViews ref o 0) i).hasFixedPosition = true ∧
      (findView (convertViews ref o 0) j).hasFixedPosition = true)

end

/-- A device on which only the root is placed. -/
def App.Blank (device : App Prob) (o : Orientation) : Prop :=
  ∀ view ∈ device.views, view.pos ≠ 0 → ∀ s, view.edge o s = -1

section
variable {app device : App Prob} {o : Orientation} {d : Nat} {v : Assignment K}

theorem App.Blank.free (h : device.Blank o) {p : Nat} (hp : p ≠ 0)
    (hlt : p < device.views.length) :
    (findView (convertViews device o d) p).hasFixedPosition = false := by
  have hstart := h _ (List.getElem_mem hlt) (by rwa [device.getElem_pos hlt]) .start
  rw [View.edge] at hstart
  rw [findView_eq (List.getElem?_eq_getElem hlt), Z3View.hasFixedPosition]
  simp [hstart]

/-- Where nothing is skipped the device keeps the look of the reference. -/
theorem keepsLook_of_robust (hlength : device.views.length = app.views.length)
    (hblank : device.Blank o) (hskip : NothingSkipped app o)
    (h : Models (addRobust app o device d) v) :
    KeepsLook app o (convertViews device o (d + 1)) v := by
  simp only [addRobust, assertKeepsLook, models_append] at h
  obtain ⟨hsizes, ⟨⟨⟨hbounds, horder⟩, _⟩, _⟩, _⟩ := h
  constructor
  · intro p hp hlt
    rw [← hlength] at hlt
    exact models_assertNotOutOfBounds.mp hbounds p hp hlt (hblank.free hp hlt)
  · intro p view hp hview hsize
    exact models_assertSizeBounds.mp hsizes p view hp hview (hskip.size p view hp hview hsize) hsize
  · intro i j hi hij hj hnone
    exact models_assertKeepsIntersection.mp horder i j hi hij hj (hskip.order i j hi hij hj hnone)
      hnone

/-! ## With known positions little is asserted -/

theorem models_assertKeepsMargins_known (hknown : app.Known) (appViews : List Z3View) :
    Models (assertKeepsMargins app (convertViews app o 0) appViews) v := by
  rw [assertKeepsMargins, models_flatMap, length_convertViews]
  intro i hi
  rw [models_flatMap]
  intro j hj
  obtain ⟨_, hi⟩ := mem_loop.mp hi
  obtain ⟨_, hj⟩ := mem_loop.mp hj
  dsimp only
  rw [hknown.fixed hi, hknown.fixed (hj.trans hi)]
  exact models_nil v

theorem models_assertKeepsSizeRatio_known (hknown : app.Known) (appViews : List Z3View)
    (device : App Prob) :
    Models (assertKeepsSizeRatio app (convertViews app o 0) appViews device) v := by
  rw [assertKeepsSizeRatio, models_flatMap, length_convertViews]
  intro i hi
  obtain ⟨_, hi⟩ := mem_loop.mp hi
  dsimp only
  rw [hknown.fixed hi]
  exact models_nil v

/-! ## A device on which everything is stretched -/

/-- Each view starts where it does in the reference and ends `delta` later. -/
def StretchedBy (delta : Int) (app : App Prob) (o : Orientation) (views : List Z3View)
    (v : Assignment K) : Prop :=
  ∀ p < app.views.length, ∀ s, (findView views p).edge s v =
    (findView (convertViews app o 0) p).coordinate s + if s = .end then delta else 0

/-- A middle that is the sum of a start and an end moves with them. -/
theorem StretchedBy.middle {delta : Int} {views : List Z3View}
    (h : StretchedBy delta app o views v) {i l r : Nat} (hi : i < app.views.length)
    (hl : l < app.views.length) (hr : r < app.views.length) {s e : Side} (hse : s ≠ e)
    (heq : (findView (convertViews app o 0) i).start + (findView (convertViews app o 0) i).end =
      (findView (convertViews app o 0) l).coordinate s +
        (findView (convertViews app o 0) r).coordinate e) :
    assertMiddle (findView views i) (findView views l) (findView views r) s e v = true := by
  have hstart := h i hi .start
  have hend := h i hi .end
  simp only [Z3View.edge, Z3View.coordinate, reduceCtorEq, ↓reduceIte] at hstart hend
  rw [assertMiddle, decide_eq_true_eq, hstart, hend, h l hl s, h r hr e]
  cases s <;> cases e <;> simp only [reduceCtorEq, ↓reduceIte] <;>
    first | exact absurd rfl hse | omega

theorem StretchedBy.models_assertKeepsCentering {delta : Int} {views : List Z3View}
    (h : StretchedBy delta app o views v) :
    Models (assertKeepsCentering app (convertViews app o 0) views) v := by
  rw [assertKeepsCentering, length_convertViews, models_flatMap]
  intro i hi
  obtain ⟨_, hi⟩ := mem_loop.mp hi
  have h0 : 0 < app.views.length := by omega
  simp only [models_append, models_flatMap]
  refine ⟨⟨?_, ?_⟩, ?_⟩
  · split
    · rename_i heq
      rw [models_cons]
      exact ⟨h.middle hi h0 h0 (by decide) heq, models_nil v⟩
    · exact models_nil v
  · intro l hl
    obtain ⟨_, hl⟩ := mem_loop.mp hl
    split
    · exact models_nil v
    · split
      · rename_i heq
        rw [models_cons]
        exact ⟨h.middle hi hl hl (by decide) heq, models_nil v⟩
      · exact models_nil v
  · intro l hl
    obtain ⟨_, hl⟩ := mem_loop.mp hl
    split
    · exact models_nil v
    · rw [models_flatMap]
      intro r hr
      obtain ⟨_, hr⟩ := mem_loop.mp hr
      split
      · exact models_nil v
      · split
        · exact models_nil v
        · split
          · rename_i heq
            rw [models_cons]
            exact ⟨h.middle hi hl hr (by decide) heq, models_nil v⟩
          · split
            · rename_i heq
              rw [models_cons]
              exact ⟨h.middle hi hl hr (by decide) heq, models_nil v⟩
            · exact models_nil v

/-- With a large enough stretch no size is bounded, and two views keep their order only by
overlapping, which takes a positive size. -/
theorem StretchedBy.nothingSkipped {delta : Int} {views : List Z3View}
    (hstretched : StretchedBy delta app o views v)
    (hdelta : ∀ view ∈ app.views, ∀ view' ∈ app.views, ∀ s e,
      view.edge o s - view'.edge o e < delta)
    (h : KeepsLook app o views v) : NothingSkipped app o := by
  have hsizes (p : Nat) (view : View Prob) (hp : p ≠ 0) (hview : app.views[p]? = some view) :
      view.size o ≤ 0 := by
    by_contra hpos
    have hlt := (List.getElem?_eq_some_iff.mp hview).1
    have hmem := List.mem_of_getElem? hview
    have hbound := (h.size p view hp hview (by omega)).2
    have hs := hstretched p hlt .start
    have he := hstretched p hlt .end
    have hlarge := hdelta view hmem view hmem .end .start
    rw [coordinate_findView hview] at hs he
    simp only [Z3View.edge, View.edge, reduceCtorEq, ↓reduceIte] at hs he hlarge
    rw [View.size_eq] at hbound
    omega
  constructor
  · intro p view hp hview hpos
    have := hsizes p view hp hview
    omega
  · intro i j hi hij hj hnone _
    have hsrc := List.getElem?_eq_getElem (hij.trans hj)
    have htgt := List.getElem?_eq_getElem hj
    have horder := h.order i j hi hij hj hnone
    have hmem := List.mem_of_getElem? hsrc
    have hmem' := List.mem_of_getElem? htgt
    have hlarge := hdelta _ hmem _ hmem' .start .end
    have hlarge' := hdelta _ hmem' _ hmem .start .end
    have hsize := hsizes i _ hi hsrc
    have hsize' := hsizes j _ (by omega) htgt
    have hbefore := horder .start .end
    have hafter := horder .end .start
    rw [hstretched i (hij.trans hj), hstretched j hj, coordinate_findView hsrc,
      coordinate_findView htgt] at hbefore hafter
    rw [View.size_eq] at hsize hsize'
    simp only [View.edge, reduceCtorEq, ↓reduceIte, Int.add_zero] at hlarge hlarge' hbefore hafter
    rw [Int.sign_eq_neg_one_of_neg (by omega), eq_comm, Int.sign_eq_neg_one_iff_neg] at hbefore
    rw [Int.sign_eq_one_of_pos (by omega), eq_comm, Int.sign_eq_one_iff_pos] at hafter
    omega

end

/-! ## The candidate that stretches a view -/

/-- A view between its margins from both edges of the root. -/
def Attribute.Stretches (attr : Attribute Prob) : Prop :=
  attr.type.sides = (some .start, some .end) ∧ attr.viewSize = .matchConstraint ∧
    attr.tgtPrimary = 0 ∧ attr.tgtSecondary = some 0

instance (attr : Attribute Prob) : Decidable attr.Stretches :=
  inferInstanceAs (Decidable (_ ∧ _))

/-- A probability model that ranks these candidates above all others. -/
def stretchFirst (low high : Prob) : ProbModel Prob := fun attr _ =>
  if attr.Stretches then high else low

section
variable {app : App Prob} {o : Orientation}

theorem Attribute.Stretches.anchorsToRoot {attr : Attribute Prob} (h : attr.Stretches)
    (hroot : app.Rooted) : CandidateConstraints.anchorsToRoot app attr = true := by
  obtain ⟨_, _, hprimary, hsecondary⟩ := h
  simp [CandidateConstraints.anchorsToRoot, hprimary, hsecondary, hroot.idOf_zero]

theorem Attribute.Stretches.isValid {attr : Attribute Prob} (h : attr.Stretches)
    (hroot : app.Rooted) : ConstraintCache.isValid app attr = true := by
  obtain ⟨hsides, _, hprimary, hsecondary⟩ := h
  rw [isValid_center hroot hsides (hprimary ▸ hroot.nonempty) hroot.nonempty hsecondary]
  simp

variable [Zero Prob]

theorem exists_stretching (hroot : app.Rooted) (hinside : app.InsideRoot) {view : View Prob}
    (hview : view ∈ app.views) (hpos : view.pos ≠ 0) :
    ∃ attr ∈ genAttributes o view app.views, attr.Stretches ∧ attr.src = view.pos := by
  obtain ⟨root, hmem, hzero⟩ := hroot.exists_root
  have hid : root.id ≠ view.id := by
    rw [Ne, ← hroot.pos_eq_iff hmem hview, hzero]
    exact hpos.symm
  have hget := App.mem_views_iff.mp hmem
  rw [hzero] at hget
  obtain ⟨hstart, hend⟩ := hinside root hget view hview o
  obtain ⟨type, htype, hsides⟩ :
      ∃ type ∈ centerTypes o, type.sides = (some .start, some .end) := by
    cases o <;> decide
  obtain ⟨_, rfl⟩ := mem_centerTypes.mp htype
  have hmarginStart := toFloat_nonneg_iff.mpr (Int.cast_nonneg_iff.mpr (sub_nonneg.mpr hstart))
  have hmarginEnd := toFloat_nonneg_iff.mpr (Int.cast_nonneg_iff.mpr (sub_nonneg.mpr hend))
  exact ⟨_, mem_genAttributes.mpr (Or.inr ⟨root, hmem, root, hmem, hid, hid, type, htype,
    Or.inr ((matchCandidate_eq_some hsides).mpr ⟨hmarginStart, hmarginEnd, rfl⟩)⟩),
    ⟨hsides, rfl, hzero, congrArg some hzero⟩, rfl⟩

variable [LinearOrder Prob]

/-- Under that model it is what anchors every view. -/
theorem anchor_stretches (hroot : app.Rooted) (hinside : app.InsideRoot) (hsizes : app.FreeSizes)
    {low high : Prob} (hlow : low < high) (sort : StdSort Prob) {p : Nat} (hp : p ≠ 0)
    (hlt : p < app.views.length) :
    ∃ attr, (initialCandidates (fun o => .ofModel (stretchFirst low high) sort app hroot o)
      o).anchorAttribute p = some attr ∧ attr.Stretches := by
  obtain ⟨view, hview, rfl⟩ := App.exists_view hlt
  obtain ⟨gen, hgen, hstretches, hsrc⟩ := exists_stretching (o := o) hroot hinside hview hp
  let model : ProbModel Prob := stretchFirst low high
  let scorer := ConstraintCache.ofModel model sort app hroot o
  let best := { gen with prob := model gen app.views }
  have hbest : best.Stretches := hstretches
  have hcandidates : scorer.candidates view.pos =
      ConstraintCache.viewCandidates model sort app o view :=
    ConstraintCache.candidates_ofModel hroot hview hp
  have hmem : best ∈ scorer.candidates view.pos := by
    rw [hcandidates]
    exact ConstraintCache.mem_viewCandidates.mpr ⟨gen, hgen, rfl⟩
  have hallowed : scorer.isAllowed best = true :=
    ConstraintCache.isAllowed_root hroot hsizes (hbest.isValid hroot) hview hp hsrc
      hbest.2.2.1 fun _ => hbest.2.2.2
  have hanchors := hbest.anchorsToRoot hroot
  obtain ⟨attr, hanchor, hattr, _⟩ := exists_anchorAttribute hp ⟨best, hmem, hallowed, hanchors⟩
  refine ⟨attr, hanchor, ?_⟩
  have hprob : best.prob ≤ attr.prob := by
    apply le_anchorAttribute hp _ hanchor hmem hallowed hanchors
    rw [hcandidates]
    exact sort.sorted _
  rw [hcandidates] at hattr
  obtain ⟨gen', _, rfl⟩ := ConstraintCache.mem_viewCandidates.mp hattr
  by_contra hnot
  have hhigh : best.prob = high := if_pos hstretches
  have hother : model gen' app.views = low := if_neg hnot
  rw [hhigh, hother] at hprob
  exact absurd hprob (not_le.mpr hlow)

end
/-! ## A wider screen -/

def View.widen (view : View Prob) (delta : Int) : Orientation → View Prob
  | .horizontal => { view with xright := view.xright + delta }
  | .vertical => { view with ybottom := view.ybottom + delta }

def View.blank (view : View Prob) : View Prob :=
  { view with xleft := -1, ytop := -1, xright := -1, ybottom := -1 }

/-- The app on a screen that is larger by `delta`, with only the root placed. -/
def App.widen (app : App Prob) (o : Orientation) (delta : Int) : App Prob where
  views := app.views.map fun view => if view.pos = 0 then view.widen delta o else view.blank
  pos_eq := by
    intro i view h
    rw [List.getElem?_map] at h
    obtain ⟨old, hold, rfl⟩ := Option.map_eq_some_iff.mp h
    have := app.pos_eq i old hold
    split
    · cases o <;> exact this
    · exact this

/-- Where the views of the app are on that screen. -/
def widenedPositions (app : App Prob) (o : Orientation) (delta : Int) (p d : Nat) : Int × Int :=
  let ref := referencePositions app o p
  if d = 0 then ref else (ref.1, ref.2 + delta)

section
variable {app : App Prob} {o : Orientation} {delta : Int}

theorem length_widen (app : App Prob) (o : Orientation) (delta : Int) :
    (app.widen o delta).views.length = app.views.length := List.length_map ..

theorem widen_blank (app : App Prob) (o : Orientation) (delta : Int) :
    (app.widen o delta).Blank o := by
  intro view hview hpos s
  obtain ⟨old, _, rfl⟩ := List.mem_map.mp hview
  split
  · rename_i hzero
    rw [if_pos hzero] at hpos
    cases o <;> exact absurd hzero hpos
  · cases o <;> cases s <;> rfl

variable (o delta) in
theorem widen_root {root : View Prob} (h : app.views[0]? = some root) :
    ∃ wide, (app.widen o delta).views[0]? = some wide ∧ wide.startAt o = root.startAt o ∧
      wide.endAt o = root.endAt o + delta := by
  refine ⟨root.widen delta o, ?_, ?_⟩
  · rw [App.widen, List.getElem?_map, h, Option.map_some, if_pos (app.pos_eq 0 root h)]
  · cases o <;> exact ⟨rfl, rfl⟩

/-- Larger than every distance between two edges. -/
theorem exists_delta (app : App Prob) (o : Orientation) :
    ∃ delta : Int, ∀ view ∈ app.views, ∀ view' ∈ app.views, ∀ s e,
      view.edge o s - view'.edge o e < delta := by
  let distances := product app.views fun view view' =>
    sides.flatMap fun s => sides.map fun e => view.edge o s - view'.edge o e
  obtain ⟨bound, hbound⟩ := distances.toFinset.exists_le
  refine ⟨bound + 1, ?_⟩
  intro view hview view' hview' s e
  have hside (s : Side) : s ∈ sides := by cases s <;> decide
  have hmem : view.edge o s - view'.edge o e ∈ distances :=
    mem_product.mpr ⟨view, hview, view', hview', List.mem_flatMap.mpr
      ⟨s, hside s, List.mem_map.mpr ⟨e, hside e, rfl⟩⟩⟩
  have := hbound _ (List.mem_toFinset.mpr hmem)
  omega

variable [Field K] {printed : Prob → K} {c : CandidateConstraints app o}
variable {margins : Nat → Int × Int}

theorem widened_stretched : StretchedBy delta app o (convertViews (app.widen o delta) o 1)
    (anchoredModel printed c margins (widenedPositions app o delta)) := by
  intro p hlt s
  have hview := List.getElem?_eq_getElem hlt
  have hwide : p < (app.widen o delta).views.length := by rwa [length_widen]
  rw [coordinate_findView hview, findView_eq (List.getElem?_eq_getElem hwide)]
  cases s <;> simp [Z3View.edge, Z3View.positionStart, Z3View.positionEnd, Z3View.uniqueId,
    anchoredModel, uniqueId_sub, widenedPositions, referencePositions, View.edge, hlt]

/-- The root is where the wider screen has it. -/
theorem widened_root (hroot : app.Rooted) : Models
    (assertRoot (convertViews (app.widen o delta) o 1))
    (anchoredModel printed c margins (widenedPositions app o delta)) := by
  have hview := List.getElem?_eq_getElem hroot.nonempty
  obtain ⟨wide, hwide, hstart, hend⟩ := widen_root o delta hview
  have hstretched : StretchedBy delta app o (convertViews (app.widen o delta) o 1)
      (anchoredModel printed c margins (widenedPositions app o delta)) := widened_stretched
  have hedge := hstretched 0 hroot.nonempty
  simp only [coordinate_findView hview, findView_eq hwide] at hedge
  have hs := hedge .start
  have he := hedge .end
  simp only [Z3View.edge, View.edge, reduceCtorEq, ↓reduceIte, Int.add_zero] at hs he
  rw [assertRoot, models_assertPosition hwide, hstart, hend]
  exact ⟨hs, he⟩

/-- With known positions the robust part only asks what the wider screen has. -/
theorem widened_robust (hroot : app.Rooted) (hinside : app.InsideRoot) (hknown : app.Known) :
    Models (addRobust app o (app.widen o delta) 0)
      (anchoredModel printed c margins (widenedPositions app o delta)) := by
  have hstretched : StretchedBy delta app o (convertViews (app.widen o delta) o 1)
      (anchoredModel printed c margins (widenedPositions app o delta)) := widened_stretched
  simp only [addRobust, assertKeepsLook, models_append]
  refine ⟨?_, ⟨⟨⟨?_, ?_⟩, hstretched.models_assertKeepsCentering⟩,
    models_assertKeepsMargins_known hknown _⟩, ?_⟩
  · rw [models_assertSizeBounds]
    intro p view _ hview hfree
    rw [hknown.fixed (List.getElem?_eq_some_iff.mp hview).1] at hfree
    cases hfree
  · rw [models_assertNotOutOfBounds]
    intro p hp hlt _
    rw [length_widen] at hlt
    have hview := List.getElem?_eq_getElem hlt
    have hrootView := List.getElem?_eq_getElem hroot.nonempty
    obtain ⟨hstart, hend⟩ := hinside _ hrootView _ (List.getElem_mem hlt) o
    have hs := hstretched p hlt .start
    have he := hstretched p hlt .end
    have hrs := hstretched 0 hroot.nonempty .start
    have hre := hstretched 0 hroot.nonempty .end
    simp only [coordinate_findView hview, coordinate_findView hrootView, Z3View.edge, View.edge,
      reduceCtorEq, ↓reduceIte] at hs he hrs hre
    simp only [hs, he, hrs, hre]
    omega
  · rw [models_assertKeepsIntersection]
    intro i j _ hij hj hfree
    exact absurd ⟨hknown.fixed (hij.trans hj), hknown.fixed hj⟩ hfree
  · split
    · exact models_assertKeepsSizeRatio_known hknown _ _
    · exact models_nil _

variable [LinearOrder K] [FloorRing K]

/-- A stretching candidate that holds in the reference holds on the wider screen, where no size
is negative. -/
theorem genAttribute_widened {v : Assignment K} {p : Nat} {attr : Attribute Prob}
    (hproper : attr.Proper app.views.length o p) (hlt : p < app.views.length)
    (hstretches : attr.Stretches) (hconcrete : Concrete app o v)
    (hstretched : StretchedBy delta app o (convertViews (app.widen o delta) o 1) v)
    (hdelta : ∀ view ∈ app.views, view.startAt o - view.endAt o < delta)
    (h : attributeValue (convertViews app o 0) attr v = true) :
    genAttribute app o (convertViews (app.widen o delta) o 1) attr v = true := by
  obtain ⟨hsides, hsize, hprimary, hsecondary⟩ := hstretches
  have hfixed : attr.viewSize ≠ .fixed := by
    rw [hsize]
    decide
  have h0 : 0 < app.views.length := hprimary ▸ hproper.primary
  have hwide : p < (app.widen o delta).views.length := by rwa [length_widen]
  have href (q : Nat) (hq : q < app.views.length) (s : Side) :
      (findView (convertViews app o 0) q).edge s v =
        (findView (convertViews app o 0) q).coordinate s := by
    obtain ⟨view, hview, rfl⟩ := App.exists_view hq
    rw [hconcrete.edge hview, coordinate_findView (App.mem_views_iff.mp hview)]
  have hid : (findView (convertViews (app.widen o delta) o 1) p).uniqueId =
      (findView (convertViews app o 0) p).uniqueId := by
    rw [findView_uniqueId hwide, findView_uniqueId hlt]
  have hms := congrArg v.marginStart hid
  have hme := congrArg v.marginEnd hid
  have hs := href p hlt .start
  have he := href p hlt .end
  have hs' := hstretched p hlt .start
  have he' := hstretched p hlt .end
  simp only [Z3View.edge, reduceCtorEq, ↓reduceIte] at hs he hs' he'
  rw [genAttribute, implies_eq_true, Bool.and_eq_true, if_neg hfixed, decide_eq_true_eq,
    attributeValue, hproper.own, hprimary, hsecondary, Option.map_some,
    formula_match hsides hfixed]
  rw [attributeValue, hproper.own, hprimary, hsecondary, Option.map_some,
    formula_match hsides hfixed, href 0 h0, href 0 h0] at h
  intro _
  constructor
  · rw [hstretched 0 h0, hstretched 0 h0, Z3View.marginStart, Z3View.marginEnd, hms, hme]
    simp only [Z3View.marginStart, Z3View.marginEnd, reduceCtorEq, ↓reduceIte] at h ⊢
    omega
  · have hview := List.getElem?_eq_getElem hlt
    have := hdelta _ (List.getElem_mem hlt)
    rw [coordinate_findView hview] at hs' he'
    simp only [View.edge] at hs' he'
    omega

end

/-! ## What is guaranteed -/

section
variable {app : App Prob} {o : Orientation}
variable [Field K] [LinearOrder K] [FloorRing K]

/-- With these candidates every device keeps the look of the reference in every model of what
`SynthesizeMultiDeviceProb` asserts with `robust` and without `user_input`. -/
def RobustWith (printed : Prob → K) (opt : Bool) (c : CandidateConstraints app o) : Prop :=
  ∀ deviceApps : List (App Prob),
    (∀ device ∈ deviceApps, device.views.length = app.views.length ∧ device.Blank o) →
    ∀ v : Assignment K, Models (multiDeviceAssertions printed deviceApps false true opt c) v →
      ∀ d device, deviceApps[d]? = some device →
        KeepsLook app o (convertViews device o (d + 1)) v

theorem robustWith_of_nothingSkipped (h : NothingSkipped app o) (printed : Prob → K) (opt : Bool)
    (c : CandidateConstraints app o) : RobustWith printed opt c := by
  intro deviceApps hdevices v hv d device hd
  obtain ⟨hlength, hblank⟩ := hdevices device (List.mem_of_getElem? hd)
  have hdevice := (models_multiDevice.mp hv).2.2 d device hd
  simp only [addMultiDevice, models_append, ↓reduceIte] at hdevice
  exact keepsLook_of_robust hlength hblank h hdevice.1.2

variable [IsStrictOrderedRing K] [Zero Prob] [LinearOrder Prob]

/-- The wider screen is a model, with every view stretched. -/
theorem widened_models (hroot : app.Rooted) (hinside : app.InsideRoot) (hsizes : app.FreeSizes)
    (hknown : app.Known) {low high : Prob} (hlow : low < high) (sort : StdSort Prob)
    (printed : Prob → K) (opt : Bool) {delta : Int}
    (hdelta : ∀ view ∈ app.views, ∀ view' ∈ app.views, ∀ s e,
      view.edge o s - view'.edge o e < delta) :
    let c := initialCandidates (fun o => .ofModel (stretchFirst low high) sort app hroot o) o
    ∃ margins, Models (multiDeviceAssertions printed [app.widen o delta] false true opt c)
      (anchoredModel printed c margins (widenedPositions app o delta)) := by
  intro c
  obtain ⟨margins, hanchored⟩ : ∃ margins, RootAnchored K c margins :=
    initialCandidates_rootAnchored hroot hinside hsizes (stretchFirst low high) sort
  refine ⟨margins, ?_⟩
  rw [models_multiDevice]
  refine ⟨anchoredModel_positions hanchored fun _ => rfl,
    anchoredModel_selection hroot hanchored fun _ => rfl, ?_⟩
  intro d device hd
  obtain ⟨rfl, rfl⟩ : d = 0 ∧ device = app.widen o delta := by
    cases d with
    | zero => exact ⟨rfl, (Option.some.inj hd).symm⟩
    | succ d => cases hd
  simp only [addMultiDevice, models_append, ↓reduceIte, Bool.false_eq_true]
  refine ⟨⟨⟨widened_root hroot, models_nil _⟩, widened_robust hroot hinside hknown⟩, ?_⟩
  rw [models_addGenAttributes]
  intro p hp hlt attr hattr
  rw [length_widen] at hlt
  obtain ⟨anchor, rest, hanchor, hset, _, hsound, _, hothers⟩ :=
    hanchored.select_iff printed (widenedPositions app o delta) hp hlt
  have hproper := getAttributes_proper hattr
  rw [hset, List.mem_cons] at hattr
  obtain rfl | hrest := hattr
  · obtain ⟨found, hfound, hstretches⟩ :=
      anchor_stretches (o := o) hroot hinside hsizes hlow sort hp hlt
    obtain rfl := Option.some.inj (hanchor.symm.trans hfound)
    have hconcrete :
        Concrete app o (anchoredModel printed c margins (widenedPositions app o delta)) :=
      anchoredModel_concrete fun _ => rfl
    apply genAttribute_widened hproper hlt hstretches hconcrete widened_stretched
    · intro view hview
      exact hdelta view hview view hview .start .end
    · apply hsound.value _ hconcrete
      refine ⟨?_, ?_, rfl⟩ <;> simp only [anchoredModel, uniqueId_sub]
  · rw [genAttribute, implies_eq_true, attributeName_device (length_widen ..) hproper hlt]
    intro hsel
    exact absurd hsel (hothers attr hrest)

/-- Where nothing is skipped robust synthesis is robust, with whatever candidates. For a reference
with known positions this is also the only case: otherwise the candidates of some probability
model stretch the views of a device out of shape. -/
theorem robust_iff_nothingSkipped [Nontrivial Prob] (app : App Prob) (o : Orientation)
    (printed : Prob → K) (opt : Bool) :
    (NothingSkipped app o → ∀ c : CandidateConstraints app o, RobustWith printed opt c) ∧
    ∀ hroot : app.Rooted, app.InsideRoot → app.FreeSizes → app.Known →
      ((∀ (model : ProbModel Prob) (sort : StdSort Prob), RobustWith printed opt
          (initialCandidates (fun o => .ofModel model sort app hroot o) o)) ↔
        NothingSkipped app o) := by
  refine ⟨fun h => robustWith_of_nothingSkipped h printed opt, ?_⟩
  intro hroot hinside hsizes hknown
  constructor
  · intro h
    obtain ⟨delta, hdelta⟩ := exists_delta app o
    obtain ⟨low, high, hlow⟩ := exists_pair_lt Prob
    obtain ⟨_, hmodel⟩ := widened_models hroot hinside hsizes hknown hlow (.insertion Prob) printed
      opt hdelta
    have hlook := h (stretchFirst low high) (.insertion Prob) [app.widen o delta]
      (by simpa using ⟨length_widen app o delta, widen_blank app o delta⟩) _ hmodel 0 _ rfl
    exact widened_stretched.nothingSkipped hdelta hlook
  · intro h model sort
    exact robustWith_of_nothingSkipped h printed opt _

end
/-! ## Two references that lose their look -/

/-- A view that fills its root. -/
def fullApp : App ℚ := .ofViews [⟨0, 0, 100, 100, 0, 0, fun _ => none, fun _ => none⟩,
  ⟨0, 0, 100, 100, 1, 0, fun _ => none, fun _ => none⟩]

theorem fullApp_rooted : fullApp.Rooted := App.rooted_ofViews rfl (by decide)

theorem mem_fullApp {view : View ℚ} (h : view ∈ fullApp.views) (o : Orientation) :
    view.startAt o = 0 ∧ view.endAt o = 100 ∧ view.viewSize o = none := by
  simp only [fullApp, App.ofViews, List.mapIdx_cons, List.mapIdx_nil, List.mem_cons,
    List.not_mem_nil, or_false] at h
  obtain rfl | rfl := h <;> cases o <;> decide

theorem fullApp_known : fullApp.Known := by
  intro view hview o s
  obtain ⟨hstart, hend, _⟩ := mem_fullApp hview o
  cases s <;> simp [View.edge, hstart, hend]

theorem fullApp_insideRoot : fullApp.InsideRoot := by
  intro root h view hview o
  obtain ⟨hstart, hend, _⟩ := mem_fullApp hview o
  obtain ⟨hstart', hend', _⟩ := mem_fullApp (List.mem_of_getElem? h) o
  rw [hstart, hend, hstart', hend']
  exact ⟨le_rfl, le_rfl⟩

/-- Robust synthesis of that reference is not robust. -/
theorem robust_iff_nothingSkipped_full :
    ¬ ∀ (model : ProbModel ℚ) (sort : StdSort ℚ), RobustWith (id : ℚ → ℚ) false (initialCandidates
      (fun o => .ofModel model sort fullApp fullApp_rooted o) .horizontal) := by
  intro h
  have hskip := ((robust_iff_nothingSkipped fullApp .horizontal (id : ℚ → ℚ) false).2
    fullApp_rooted fullApp_insideRoot (fun view hview o => (mem_fullApp hview o).2.2)
    fullApp_known).mp h
  have := hskip.size 1 _ (by decide) rfl (by decide)
  revert this
  decide

theorem pairApp_rooted (start «end» start' end' : Int) :
    (pairApp start «end» start' end').Rooted := by
  apply App.rooted_ofViews rfl
  change [(0 : Int), 1, 2].Nodup
  decide

/-- The positions of the reference and of a device, and the selected constraints. -/
def placedModel (ref device : List (Int × Int)) (names : List ConstraintData) : Assignment ℚ where
  positionStart u d := ((if d = 0 then ref else device)[u]?).elim 0 (·.1)
  positionEnd u d := ((if d = 0 then ref else device)[u]?).elim 0 (·.2)
  marginStart _ := 0
  marginEnd _ := 0
  anchor u := if u = 0 then 0 else 1
  bias _ := 1 / 2
  cost _ := 0
  satisfied _ _ := true
  select name := decide (name ∈ names)

/-- `v` is a model for a screen of another width, under equally probable candidates, in which
the look of the reference is lost. -/
def LosesLook (app : App ℚ) (hroot : app.Rooted) (delta : Int) (v : Assignment ℚ) : Prop :=
  Models (multiDeviceAssertions id [app.widen .horizontal delta] false true false
    (initialCandidates (fun o => .ofModel (fun _ _ => 0) (.insertion ℚ) app hroot o)
      .horizontal)) v ∧
  ¬ KeepsLook app .horizontal (convertViews (app.widen .horizontal delta) .horizontal 1) v

/-- The view that fills its root becomes three times as wide, and two views at either end of
theirs overlap on a narrower screen. -/
theorem robust_loses_look :
    (fullApp.Known ∧ LosesLook fullApp fullApp_rooted 200
      (placedModel [(0, 100), (0, 100)] [(0, 300), (0, 300)]
        [⟨.l2lxr2r, .matchConstraint, .horizontal, 1, 0, 0⟩])) ∧
    (pairApp 0 40 60 100).Known ∧ LosesLook (pairApp 0 40 60 100) (pairApp_rooted 0 40 60 100) (-40)
      (placedModel [(0, 100), (0, 40), (60, 100)] [(0, 60), (0, 40), (20, 60)]
        [⟨.l2l, .fixed, .horizontal, 1, 0, -1⟩, ⟨.r2r, .fixed, .horizontal, 2, 0, -1⟩]) := by
  refine ⟨⟨fullApp_known, by decide +kernel, ?_⟩, pairApp_known (by decide) (by decide),
    by decide +kernel, ?_⟩
  · intro h
    have := h.size 1 _ (by decide) rfl (by decide)
    revert this
    decide
  · intro h
    have := h.order 1 2 (by decide) (by decide) (by decide) (by decide +kernel) .end .start
    revert this
    decide

end InferUI
