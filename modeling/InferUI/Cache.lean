import InferUI.Generate
import InferUI.Merge
import Mathlib.Order.Basic
import Mathlib.Data.List.Sort

/-!
# The candidates of an app

`ConstraintCache` of `synthesis.h`: the generated attributes of every view, sorted by a
probability model, and the pairs of views between which an attribute may point.
-/

namespace InferUI
variable {Prob : Type}

/-- `ProbModel::AttrProb`, the only part of a model that ranks candidates. -/
abbrev ProbModel (Prob : Type) := Attribute Prob → List (View Prob) → Prob

/-- What is known of `std::sort` with the comparator of `InitializeBaseConstraints`: some
reordering of its input by descending probability, in which ties may come in any order. -/
structure StdSort (Prob : Type) [LinearOrder Prob] where
  sort : List (Attribute Prob) → List (Attribute Prob)
  perm : ∀ attrs, (sort attrs).Perm attrs
  sorted : ∀ attrs, (sort attrs).Pairwise fun a b => b.prob ≤ a.prob

/-- Insertion sort is one of them. -/
def StdSort.insertion (Prob : Type) [LinearOrder Prob] : StdSort Prob where
  sort attrs := attrs.insertionSort fun a b => b.prob ≤ a.prob
  perm attrs := List.perm_insertionSort _ attrs
  sorted attrs := by
    have total : Std.Total fun a b : Attribute Prob => b.prob ≤ a.prob := ⟨fun _ _ => le_total _ _⟩
    have trans : IsTrans (Attribute Prob) fun a b => b.prob ≤ a.prob :=
      ⟨fun _ _ _ hab hbc => le_trans hbc hab⟩
    exact List.pairwise_insertionSort _ attrs

namespace ConstraintCache

/-- `IsValid`; `*l == *r` compares ids. -/
def isValid (app : App Prob) (attr : Attribute Prob) : Bool :=
  if attr.type.isRelationalAnchor then
    !(decide (attr.tgtPrimary = 0) && attr.type.isOpposite)
  else match attr.tgtSecondary with
    | none => false
    | some secondary =>
      if (attr.type = .l2rxr2l ∨ attr.type = .t2bxb2t) ∧
          app.idOf attr.tgtPrimary = app.idOf secondary then false
      else if attr.tgtPrimary = 0 ∧ secondary = 0 ∧ attr.type.isSameSide then false
      else true

section
variable [LinearOrder Prob]

/-- `operator>` of `Attribute`. -/
def gt (a b : Attribute Prob) : Bool := decide (b.prob < a.prob)

def allow (allowed : Nat → Nat → Bool) (src tgt : Nat) : Nat → Nat → Bool :=
  fun a b => decide (a = src ∧ b = tgt) || allowed a b

/-- The body of the loop of `InitializePrune`. -/
def pruneStep (allowed : Nat → Nat → Bool) (attr : Attribute Prob) : Nat → Nat → Bool :=
  if attr.type.isRelationalAnchor then
    if allowed attr.tgtPrimary attr.src then allowed
    else allow allowed attr.src attr.tgtPrimary
  else match attr.tgtSecondary with
    | none => allowed
    | some secondary =>
      if !allowed attr.tgtPrimary attr.src && !allowed secondary attr.src then
        allow (allow allowed attr.src attr.tgtPrimary) attr.src secondary
      else allowed

/-- `InitializePrune` under any `operator>`, so for any scores, numbers or not. -/
def initializePruneBy (gt : Attribute Prob → Attribute Prob → Bool)
    (candidates : List (List (Attribute Prob))) : Nat → Nat → Bool :=
  (MultiSortedIterator.elements gt candidates.flatten.length
    (MultiSortedIterator.begin gt candidates)).foldl pruneStep fun _ _ => false

def initializePrune (candidates : List (List (Attribute Prob))) : Nat → Nat → Bool :=
  initializePruneBy gt candidates

variable [Zero Prob]

/-- The sorted candidates of one view. -/
def viewCandidates (model : ProbModel Prob) (sort : StdSort Prob) (app : App Prob)
    (o : Orientation) (view : View Prob) : List (Attribute Prob) :=
  sort.sort ((genAttributes o view app.views).map fun attr =>
    { attr with prob := model attr app.views })

def initializeBaseConstraints (model : ProbModel Prob) (sort : StdSort Prob) (app : App Prob)
    (o : Orientation) : List (List (Attribute Prob)) :=
  (app.views.filter fun view => !view.isContentFrame).map (viewCandidates model sort app o)

end
end ConstraintCache

/-- The candidates of an app in an orientation. Entry `i` of `candidateAttrs` belongs to view
`i + 1`, since the content frame has none. -/
structure ConstraintCache (app : App Prob) (o : Orientation) where
  candidateAttrs : List (List (Attribute Prob))
  allowedTargets : Nat → Nat → Bool
  proper : ∀ (i : Nat) (attrs : List (Attribute Prob)), candidateAttrs[i]? = some attrs →
    ∀ attr ∈ attrs, attr.Proper app.views.length o (i + 1)

namespace ConstraintCache
variable {app : App Prob} {o : Orientation}

def isAllowed (cache : ConstraintCache app o) (attr : Attribute Prob) : Bool :=
  if !isValid app attr then false
  else
    let viewSize := (app.views[attr.src]?).bind fun src => src.viewSize attr.type.toOrientation
    if viewSize.any fun size => decide (size ≠ attr.viewSize) then false
    else if attr.type.isRelationalAnchor then cache.allowedTargets attr.src attr.tgtPrimary
    else cache.allowedTargets attr.src attr.tgtPrimary &&
      attr.tgtSecondary.any fun secondary => cache.allowedTargets attr.src secondary

theorem isValid_of_isAllowed {cache : ConstraintCache app o} {attr : Attribute Prob}
    (h : cache.isAllowed attr = true) : isValid app attr = true := by
  by_contra hinvalid
  rw [Bool.not_eq_true] at hinvalid
  rw [isAllowed, hinvalid] at h
  cases h

/-- The candidates of the view at position `pos`. -/
def candidates (cache : ConstraintCache app o) : Nat → List (Attribute Prob)
  | 0 => []
  | i + 1 => cache.candidateAttrs[i]?.getD []

def getAttr (cache : ConstraintCache app o) (pos rank : Nat) : Option (Attribute Prob) :=
  (cache.candidates pos)[rank]?

theorem proper_of_mem (cache : ConstraintCache app o) {pos : Nat} {attr : Attribute Prob}
    (h : attr ∈ cache.candidates pos) : attr.Proper app.views.length o pos := by
  cases pos with
  | zero => cases h
  | succ i =>
    rw [candidates] at h
    cases ha : cache.candidateAttrs[i]? with
    | none => simp [ha] at h
    | some attrs => exact cache.proper i attrs ha attr (by simpa [ha] using h)

end ConstraintCache

/-! ## The cache the constructor builds -/

namespace App

theorem mem_views_iff {app : App Prob} {view : View Prob} :
    view ∈ app.views ↔ app.views[view.pos]? = some view := by
  constructor
  · intro h
    obtain ⟨i, hi⟩ := List.mem_iff_getElem?.mp h
    rwa [app.pos_eq i view hi]
  · exact List.mem_of_getElem?

theorem pos_lt {app : App Prob} {view : View Prob} (h : view ∈ app.views) :
    view.pos < app.views.length :=
  (List.getElem?_eq_some_iff.mp (mem_views_iff.mp h)).1

theorem exists_view {app : App Prob} {p : Nat} (h : p < app.views.length) :
    ∃ view ∈ app.views, view.pos = p :=
  ⟨app.views[p], List.getElem_mem h, app.getElem_pos h⟩

theorem eq_of_pos {app : App Prob} {v w : View Prob} (hv : v ∈ app.views) (hw : w ∈ app.views)
    (h : v.pos = w.pos) : v = w := by
  have hget := mem_views_iff.mp hv
  rw [h, mem_views_iff.mp hw] at hget
  exact (Option.some.inj hget).symm

theorem idOf_pos {app : App Prob} {view : View Prob} (h : view ∈ app.views) :
    app.idOf view.pos = view.id := by
  simp [idOf, mem_views_iff.mp h]

theorem Rooted.pos_eq_iff {app : App Prob} (h : app.Rooted) {v w : View Prob}
    (hv : v ∈ app.views) (hw : w ∈ app.views) : v.pos = w.pos ↔ v.id = w.id := by
  rw [← idOf_pos hv, ← idOf_pos hw, h.idOf_inj (pos_lt hv) (pos_lt hw)]

theorem Rooted.exists_root {app : App Prob} (h : app.Rooted) : ∃ root ∈ app.views, root.pos = 0 :=
  exists_view h.nonempty

theorem Rooted.isContentFrame_iff {app : App Prob} (h : app.Rooted) {view : View Prob}
    (hv : view ∈ app.views) : view.isContentFrame = true ↔ view.pos = 0 := by
  rw [View.isContentFrame, decide_eq_true_eq, ← idOf_pos hv, h.idOf_eq_zero (pos_lt hv)]

/-- The views other than the content frame are those from position 1 on. -/
theorem Rooted.filter_views {app : App Prob} (h : app.Rooted) :
    (app.views.filter fun view => !view.isContentFrame) = app.views.drop 1 := by
  have hroot (view : View Prob) (hv : view ∈ app.views) := h.isContentFrame_iff hv
  have hpos := app.pos_eq
  have hlen := h.nonempty
  generalize app.views = views at hroot hpos hlen
  cases views with
  | nil => simp at hlen
  | cons root tail =>
    have h0 : root.isContentFrame = true :=
      (hroot root (by simp)).mpr (hpos 0 root (by simp))
    rw [List.filter_cons_of_neg (by simp [h0])]
    change List.filter _ tail = tail
    apply List.filter_eq_self.mpr
    intro view hv
    obtain ⟨i, hi⟩ := List.mem_iff_getElem?.mp hv
    have hp := hpos (i + 1) view (by simpa using hi)
    have : ¬ view.isContentFrame = true := by
      rw [hroot view (List.mem_cons_of_mem root hv), hp]
      omega
    simpa using this

end App

namespace ConstraintCache
variable [Zero Prob]

/-- Everything generated for a view of an app is proper for it. -/
theorem genAttributes_proper {app : App Prob} {o : Orientation} {src : View Prob}
    {attr : Attribute Prob} (h : attr ∈ genAttributes o src app.views) :
    attr.Proper app.views.length o src.pos := by
  rcases mem_genAttributes.mp h with ⟨view, hv, _, type, ht, hc⟩ |
    ⟨l, hl, r, hr, _, _, type, ht, hc⟩
  · obtain ⟨hrel, ho⟩ := mem_relationalTypes.mp ht
    obtain ⟨_, margin, _, _, rfl⟩ := relationalCandidate_eq_some.mp hc
    exact ⟨rfl, ho, App.pos_lt hv, fun _ => ⟨rfl, rfl⟩,
      fun hn => absurd (hrel.symm.trans hn) (by simp)⟩
  · obtain ⟨hcen, ho⟩ := mem_centerTypes.mp ht
    have hrel {P : Prop} (hr : type.isRelationalAnchor = true) : P := by
      rw [hcen] at hr
      cases hr
    rcases type.sides_cases with ⟨_, _, hr', _⟩ | ⟨_, _, hr', _⟩ | ⟨s, e, hs, _, _⟩
    · exact hrel hr'
    · exact hrel hr'
    · rcases hc with hc | hc
      · obtain ⟨_, rfl⟩ := (centeringCandidate_eq_some hs).mp hc
        exact ⟨rfl, ho, App.pos_lt hl, hrel, fun _ => ⟨r.pos, App.pos_lt hr, rfl⟩⟩
      · obtain ⟨_, _, rfl⟩ := (matchCandidate_eq_some hs).mp hc
        exact ⟨rfl, ho, App.pos_lt hl, hrel, fun _ => ⟨r.pos, App.pos_lt hr, rfl⟩⟩

section
variable [LinearOrder Prob]

theorem mem_viewCandidates {model : ProbModel Prob} {sort : StdSort Prob} {app : App Prob}
    {o : Orientation} {view : View Prob} {attr : Attribute Prob} :
    attr ∈ viewCandidates model sort app o view ↔
      ∃ gen ∈ genAttributes o view app.views, attr = { gen with prob := model gen app.views } := by
  rw [viewCandidates, (sort.perm _).mem_iff, List.mem_map]
  constructor <;> rintro ⟨gen, hg, rfl⟩ <;> exact ⟨gen, hg, rfl⟩

theorem initializeBaseConstraints_getElem? {app : App Prob} (h : app.Rooted)
    (model : ProbModel Prob) (sort : StdSort Prob) (o : Orientation) (i : Nat) :
    (initializeBaseConstraints model sort app o)[i]? =
      (app.views[i + 1]?).map (viewCandidates model sort app o) := by
  rw [initializeBaseConstraints, h.filter_views, List.getElem?_map, List.getElem?_drop,
    Nat.add_comm]

/-- The constructor of `ConstraintCache`. -/
def ofModel (model : ProbModel Prob) (sort : StdSort Prob) (app : App Prob) (h : app.Rooted)
    (o : Orientation) : ConstraintCache app o where
  candidateAttrs := initializeBaseConstraints model sort app o
  allowedTargets := initializePrune (initializeBaseConstraints model sort app o)
  proper := by
    intro i attrs ha attr hm
    rw [initializeBaseConstraints_getElem? h, Option.map_eq_some_iff] at ha
    obtain ⟨view, hv, rfl⟩ := ha
    obtain ⟨gen, hg, rfl⟩ := mem_viewCandidates.mp hm
    have := genAttributes_proper hg
    rw [app.pos_eq _ _ hv] at this
    exact ⟨this.own, this.orientation, this.primary, this.relational, this.center⟩

theorem candidates_ofModel {model : ProbModel Prob} {sort : StdSort Prob} {app : App Prob}
    (h : app.Rooted) {o : Orientation} {view : View Prob} (hv : view ∈ app.views)
    (hroot : view.pos ≠ 0) :
    (ofModel model sort app h o).candidates view.pos = viewCandidates model sort app o view := by
  obtain ⟨i, hi⟩ := Nat.exists_eq_succ_of_ne_zero hroot
  have hget := App.mem_views_iff.mp hv
  rw [hi] at hget ⊢
  simp only [candidates, ofModel]
  rw [initializeBaseConstraints_getElem? h, hget]
  rfl

end
end ConstraintCache

/-! ## Small apps -/

/-- One view inside a content frame, for the examples of the other modules. -/
def sampleApp : App ℚ := .ofViews [⟨0, 0, 100, 100, 0, 0, fun _ => none, fun _ => none⟩,
  ⟨10, 20, 30, 60, 1, 0, fun _ => none, fun _ => none⟩]

theorem sampleApp_rooted : sampleApp.Rooted := App.rooted_ofViews rfl (by decide)

theorem sampleApp_insideRoot : sampleApp.InsideRoot := by
  intro root h view hv o
  cases h
  simp only [sampleApp, App.ofViews, List.mapIdx_cons, List.mapIdx_nil, List.mem_cons,
    List.not_mem_nil, or_false] at hv
  obtain rfl | rfl := hv <;> cases o <;> decide

theorem sampleApp_freeSizes : sampleApp.FreeSizes := by
  intro view hview o
  simp only [sampleApp, App.ofViews, List.mapIdx_cons, List.mapIdx_nil, List.mem_cons,
    List.not_mem_nil, or_false] at hview
  obtain rfl | rfl := hview <;> rfl

/-- A larger screen on which the position of the view is not known. -/
def sampleDevice : App ℚ := .ofViews [⟨0, 0, 200, 300, 0, 0, fun _ => none, fun _ => none⟩,
  ⟨-1, -1, -1, -1, 1, 0, fun _ => none, fun _ => none⟩]

/-- Two views next to each other inside a content frame. -/
def sideBySide : App ℚ := .ofViews [⟨0, 0, 100, 100, 0, 0, fun _ => none, fun _ => none⟩,
  ⟨10, 20, 30, 60, 1, 0, fun _ => none, fun _ => none⟩,
  ⟨40, 20, 90, 70, 2, 0, fun _ => none, fun _ => none⟩]

theorem sideBySide_rooted : sideBySide.Rooted := App.rooted_ofViews rfl (by decide)

theorem sideBySide_insideRoot : sideBySide.InsideRoot := by
  intro root h view hv o
  cases h
  simp only [sideBySide, App.ofViews, List.mapIdx_cons, List.mapIdx_nil, List.mem_cons,
    List.not_mem_nil, or_false] at hv
  obtain rfl | rfl | rfl := hv <;> cases o <;> decide

theorem sideBySide_freeSizes : sideBySide.FreeSizes := by
  intro view hview o
  simp only [sideBySide, App.ofViews, List.mapIdx_cons, List.mapIdx_nil, List.mem_cons,
    List.not_mem_nil, or_false] at hview
  obtain rfl | rfl | rfl := hview <;> rfl

/-- The candidates of `sampleApp`, all equally probable. -/
def sampleCache (o : Orientation) : ConstraintCache sampleApp o :=
  .ofModel (fun _ _ => 0) (.insertion ℚ) sampleApp sampleApp_rooted o

end InferUI
