import InferUI.ListLemmas
import InferUI.RootAnchor

/-!
# Candidates common to several apps

`InitializeBaseConstraints` of `synthesis.h` for a list of views and additional apps. The
candidates of a view are filtered by one app after the other. The flags are indexed by the
candidates of the first list, and the list is compacted after each app.
-/

namespace InferUI

/-- What is left of a list, and the flags of the indices of the list as it was at first. -/
structure Flagged (α : Type) where
  items : List α
  flags : List Bool

namespace Flagged
variable {α : Type} {test common : α → Bool}

def start (items : List α) : Flagged α := ⟨items, List.replicate items.length true⟩

/-- The flags after a pass: one goes down where it was up and the item fails the test. -/
def lower (s : Flagged α) (test : α → Bool) : List Bool :=
  s.flags.mapIdx fun i flag => flag && (s.items[i]?).elim true test

/-- One pass: an item stays when the flag of its index is up. -/
def pass (s : Flagged α) (test : α → Bool) : Flagged α where
  items := ((s.items.zip (s.lower test)).filter (·.2)).map (·.1)
  flags := s.lower test

/-- Every item has a flag. -/
def Fits (s : Flagged α) : Prop := s.items.length ≤ s.flags.length

/-- The item stands at an index whose flag an earlier pass took down. -/
def Stale (s : Flagged α) (a : α) : Prop := (a, false) ∈ s.items.zip s.flags

/-- No pass meets an item of `common` at an index whose flag is already down. -/
def Spared (common : α → Bool) : Flagged α → List (α → Bool) → Prop
  | _, [] => True
  | s, test :: tests => (∀ a, s.Stale a → common a = false) ∧ Spared common (s.pass test) tests

theorem start_fits (items : List α) : (start items).Fits := by
  simp [Fits, start]

theorem zip_lower (s : Flagged α) (test : α → Bool) :
    s.items.zip (s.lower test) = (s.items.zip s.flags).map fun p => (p.1, p.2 && test p.1) := by
  apply List.ext_getElem
  · simp [lower]
  · intro i hi _
    have hlt : i < s.items.length := by
      rw [List.length_zip] at hi
      omega
    simp [lower, hlt]

theorem pass_items (s : Flagged α) (test : α → Bool) :
    (s.pass test).items =
      ((s.items.zip s.flags).filter fun p => p.2 && test p.1).map (·.1) := by
  rw [pass, zip_lower, List.filter_map, List.map_map]
  rfl

theorem pass_fits {s : Flagged α} (h : s.Fits) (test : α → Bool) : (s.pass test).Fits := by
  have hle : ((s.items.zip (s.lower test)).filter (·.2)).length ≤ s.items.length :=
    (List.length_filter_le _ _).trans (by simp [List.length_zip])
  have hflags : (s.lower test).length = s.flags.length := by simp [lower]
  rw [Fits, pass, List.length_map, hflags]
  exact hle.trans h

theorem Fits.items_eq {s : Flagged α} (h : s.Fits) :
    s.items = (s.items.zip s.flags).map (·.1) :=
  (List.map_fst_zip h).symm

/-- What is left after a pass passes its test. -/
theorem pass_sublist {s : Flagged α} (h : s.Fits) (test : α → Bool) :
    (s.pass test).items.Sublist (s.items.filter test) := by
  rw [pass_items, h.items_eq, List.filter_map, ← h.items_eq]
  apply List.Sublist.map
  apply List.monotone_filter_right
  intro p hp
  exact (Bool.and_eq_true_iff.mp hp).2

/-- A pass keeps the items of `common`, all of which pass its test, except the stale ones. -/
theorem pass_common {s : Flagged α} (h : s.Fits) (hcommon : ∀ a, common a = true → test a = true) :
    (s.pass test).items.filter common = s.items.filter common ↔
      ∀ a, s.Stale a → common a = false := by
  have hpass : (s.pass test).items.filter common =
      (((s.items.zip s.flags).filter fun p => common p.1).filter fun p => p.2).map (·.1) := by
    rw [pass_items, List.filter_map, List.filter_filter, List.filter_filter]
    congr 1
    apply List.filter_congr
    intro p _
    cases hc : common p.1 with
    | false => simp [hc]
    | true => simp [hc, hcommon p.1 hc]
  have hitems : s.items.filter common =
      ((s.items.zip s.flags).filter fun p => common p.1).map (·.1) := by
    rw [h.items_eq, List.filter_map, ← h.items_eq]
    rfl
  rw [hpass, hitems]
  constructor
  · intro he a hstale
    have hlength := congrArg List.length he
    rw [List.length_map, List.length_map, List.length_filter_eq_length_iff] at hlength
    by_contra hc
    have hkept := hlength (a, false) (List.mem_filter.mpr ⟨hstale, by simpa using hc⟩)
    cases hkept
  · intro hspared
    congr 1
    apply List.filter_eq_self.mpr
    intro p hp
    obtain ⟨hmem, hc⟩ := List.mem_filter.mp hp
    by_contra hflag
    obtain ⟨a, flag⟩ := p
    simp only [Bool.not_eq_true] at hflag
    subst hflag
    have := hspared a hmem
    simp [this] at hc

theorem run_sublist {s : Flagged α} (h : s.Fits) (tests : List (α → Bool)) :
    (tests.foldl pass s).items.Sublist (s.items.filter fun a => tests.all (· a)) := by
  induction tests generalizing s with
  | nil => simp
  | cons test tests ih =>
    have hpass := (pass_sublist h test).filter fun a => tests.all (· a)
    rw [List.filter_filter] at hpass
    have hall : (fun a => (test :: tests).all (· a)) =
        fun a => tests.all (· a) && test a := by
      funext a
      rw [List.all_cons, Bool.and_comm]
    rw [hall]
    exact (ih (pass_fits h test)).trans hpass

/-- Of `common`, a run keeps everything exactly when no pass meets one of its items stale. -/
theorem run_common {s : Flagged α} (h : s.Fits) {tests : List (α → Bool)}
    (hcommon : ∀ test ∈ tests, ∀ a, common a = true → test a = true) :
    (tests.foldl pass s).items.filter common = s.items.filter common ↔
      Spared common s tests := by
  induction tests generalizing s with
  | nil => simp [Spared]
  | cons test tests ih =>
    have hrest := run_sublist (pass_fits h test) tests
    have hlater : ((tests.foldl pass (s.pass test)).items.filter common).Sublist
        ((s.pass test).items.filter common) :=
      (hrest.trans (List.filter_sublist)).filter common
    have hfirst : ((s.pass test).items.filter common).Sublist (s.items.filter common) :=
      ((pass_sublist h test).trans List.filter_sublist).filter common
    rw [Spared, List.foldl_cons, ← pass_common h (hcommon test List.mem_cons_self),
      ← ih (pass_fits h test) fun t ht => hcommon t (List.mem_cons_of_mem test ht)]
    constructor
    · intro he
      have hlength := congrArg List.length he
      have h1 := hlater.length_le
      have h2 := hfirst.length_le
      exact ⟨hfirst.eq_of_length (by omega), hlater.eq_of_length (by omega)⟩
    · rintro ⟨h1, h2⟩
      rw [h2, h1]

/-- A run leaves the items that pass every test, and all of them exactly when none is met stale. -/
theorem run_eq_filter_iff (items : List α) (tests : List (α → Bool)) :
    (tests.foldl pass (start items)).items = items.filter (fun a => tests.all (· a)) ↔
      Spared (fun a => tests.all (· a)) (start items) tests := by
  have hcommon : ∀ test ∈ tests, ∀ a, tests.all (· a) = true → test a = true :=
    fun test ht a ha => List.all_eq_true.mp ha test ht
  have hleft := run_sublist (start_fits items) tests
  have hself : (tests.foldl pass (start items)).items.filter (fun a => tests.all (· a)) =
      (tests.foldl pass (start items)).items :=
    List.filter_eq_self.mpr fun a ha => (List.mem_filter.mp (hleft.subset ha)).2
  rw [← run_common (start_fits items) hcommon, hself]
  rfl

/-- One test alone meets no stale item. -/
theorem spared_single (items : List α) (test : α → Bool) :
    Spared common (start items) [test] := by
  refine ⟨?_, trivial⟩
  intro a hstale
  have := (List.of_mem_zip hstale).2
  simp [start] at this

end Flagged

variable {Prob : Type}

/-- `operator==` of an attribute of `app` and one of `other`. `EqualOrNull` compares the views
they refer to by id. -/
def Attribute.equals (app other : App Prob) (a b : Attribute Prob) : Bool :=
  decide (a.type = b.type ∧ a.viewSize = b.viewSize ∧ a.valuePrimary = b.valuePrimary ∧
    a.valueSecondary = b.valueSecondary ∧ a.bias = b.bias ∧ app.idOf a.src = other.idOf b.src ∧
    app.idOf a.tgtPrimary = other.idOf b.tgtPrimary ∧
    a.tgtSecondary.map app.idOf = b.tgtSecondary.map other.idOf)

namespace ConstraintCache

/-- The two lists have the same view ids. -/
def SameIds (views app : App Prob) : Prop :=
  ∀ id, id ∈ views.views.map (·.id) ↔ id ∈ app.views.map (·.id)

theorem findView_isSome {views : App Prob} {apps : List (App Prob)} {view : View Prob}
    (hids : ∀ app ∈ apps, SameIds views app) (hview : view ∈ views.views) :
    ∀ app ∈ apps, (app.findView view.id).isSome = true := by
  intro app happ
  obtain ⟨own, hown, hid⟩ :=
    List.mem_map.mp ((hids app happ view.id).mp (List.mem_map_of_mem hview))
  rw [App.findView, List.find?_isSome]
  exact ⟨own, hown, by simpa using hid⟩

variable [Zero Prob]

/-- `Contains(constraint_attrs, attr)` for what `app` generates for its view `own`. -/
def containsAttr (views app : App Prob) (o : Orientation) (own : View Prob)
    (attr : Attribute Prob) : Bool :=
  (genAttributes o own app.views).any fun other => other.equals app views attr

/-- The body of the loop over the additional apps. -/
def filterByApp (views : App Prob) (o : Orientation) (view : View Prob)
    (state : Flagged (Attribute Prob)) (app : App Prob) : Option (Flagged (Attribute Prob)) :=
  (app.findView view.id).map fun own => state.pass (containsAttr views app o own)

section
variable [LinearOrder Prob]

/-- The body of the loop over the views; `none` is a failed `CHECK(!attrs.empty())`. -/
def viewCandidatesApps (model : ProbModel Prob) (sort : StdSort Prob) (views : App Prob)
    (apps : List (App Prob)) (o : Orientation) (view : View Prob) :
    Option (List (Attribute Prob)) := do
  let state ← apps.foldlM (filterByApp views o view) (.start (genAttributes o view views.views))
  if state.items.isEmpty then none
  else some (sort.sort (state.items.map fun attr => { attr with prob := model attr views.views }))

/-- `InitializeBaseConstraints(views, apps)`. -/
def initializeBaseConstraintsApps (model : ProbModel Prob) (sort : StdSort Prob)
    (views : App Prob) (apps : List (App Prob)) (o : Orientation) :
    Option (List (List (Attribute Prob))) :=
  if apps.isEmpty then none
  else (views.views.filter fun view => !view.isContentFrame).mapM
    (viewCandidatesApps model sort views apps o)

end

/-! ## What is common to the apps -/

/-- The app generates an equal attribute for the view with the same id. -/
def Generates (views app : App Prob) (o : Orientation) (view : View Prob)
    (attr : Attribute Prob) : Prop :=
  ∃ own, app.findView view.id = some own ∧
    ∃ other ∈ genAttributes o own app.views, other.equals app views attr = true

/-- Generated from the base views and by every additional app. -/
def Common (views : App Prob) (apps : List (App Prob)) (o : Orientation) (view : View Prob)
    (attr : Attribute Prob) : Prop :=
  attr ∈ genAttributes o view views.views ∧ ∀ app ∈ apps, Generates views app o view attr

/-- The test one app applies to the candidates of a view. -/
def appTest (views : App Prob) (o : Orientation) (view : View Prob) (app : App Prob)
    (attr : Attribute Prob) : Bool :=
  (app.findView view.id).any fun own => containsAttr views app o own attr

theorem appTest_iff {views app : App Prob} {o : Orientation} {view : View Prob}
    {attr : Attribute Prob} :
    appTest views o view app attr = true ↔ Generates views app o view attr := by
  simp [appTest, Generates, containsAttr, Option.any_eq_true, List.any_eq_true]

/-- The candidates of a view, each once, are the common ones, the most probable first. -/
structure Intersected [LinearOrder Prob] (model : ProbModel Prob) (views : App Prob)
    (apps : List (App Prob)) (o : Orientation) (view : View Prob)
    (attrs : List (Attribute Prob)) : Prop where
  mem : ∀ attr, attr ∈ attrs ↔
    ∃ gen, Common views apps o view gen ∧ attr = { gen with prob := model gen views.views }
  once : attrs.Pairwise Distinct
  sorted : attrs.Pairwise fun a b => b.prob ≤ a.prob

/-- After the call the candidates of each view are its common ones. The call stops only when a
view has none. -/
def Intersects [LinearOrder Prob] (model : ProbModel Prob) (sort : StdSort Prob)
    (views : App Prob) (apps : List (App Prob)) (o : Orientation) : Prop :=
  match initializeBaseConstraintsApps model sort views apps o with
  | none => ∃ view ∈ views.views, view.isContentFrame = false ∧
      ∀ attr, ¬ Common views apps o view attr
  | some lists => List.Forall₂ (Intersected model views apps o)
      (views.views.filter fun view => !view.isContentFrame) lists

/-- No app meets a common candidate at an index whose flag an earlier app took down. -/
def NoneStale (views : App Prob) (apps : List (App Prob)) (o : Orientation) (view : View Prob) :
    Prop :=
  let tests := apps.map (appTest views o view)
  Flagged.Spared (fun attr => tests.all (· attr)) (.start (genAttributes o view views.views)) tests

section
variable {views : App Prob} {apps : List (App Prob)} {o : Orientation} {view : View Prob}

/-- The loop over the apps is one run of their tests. -/
theorem foldlM_filterByApp (hfound : ∀ app ∈ apps, (app.findView view.id).isSome = true)
    (state : Flagged (Attribute Prob)) :
    apps.foldlM (filterByApp views o view) state =
      some ((apps.map (appTest views o view)).foldl Flagged.pass state) := by
  induction apps generalizing state with
  | nil => rfl
  | cons app apps ih =>
    obtain ⟨own, hown⟩ := Option.isSome_iff_exists.mp (hfound app List.mem_cons_self)
    have htest : appTest views o view app = containsAttr views app o own := by
      funext attr
      simp [appTest, hown]
    rw [List.foldlM_cons, filterByApp, hown, List.map_cons, List.foldl_cons, htest]
    exact ih (fun app' h => hfound app' (List.mem_cons_of_mem app h)) _

/-- The candidates left when all apps are done. -/
def leftOver (views : App Prob) (apps : List (App Prob)) (o : Orientation) (view : View Prob) :
    List (Attribute Prob) :=
  ((apps.map (appTest views o view)).foldl Flagged.pass
    (.start (genAttributes o view views.views))).items

/-- The candidates common to all apps, in the order in which they are generated. -/
def commonAttrs (views : App Prob) (apps : List (App Prob)) (o : Orientation)
    (view : View Prob) : List (Attribute Prob) :=
  (genAttributes o view views.views).filter fun attr =>
    (apps.map (appTest views o view)).all (· attr)

theorem mem_commonAttrs {attr : Attribute Prob} :
    attr ∈ commonAttrs views apps o view ↔ Common views apps o view attr := by
  simp [commonAttrs, Common, appTest_iff]

theorem leftOver_sublist :
    (leftOver views apps o view).Sublist (commonAttrs views apps o view) :=
  Flagged.run_sublist (Flagged.start_fits _) _

theorem leftOver_eq_iff :
    leftOver views apps o view = commonAttrs views apps o view ↔ NoneStale views apps o view :=
  Flagged.run_eq_filter_iff _ _

theorem commonAttrs_distinct : (commonAttrs views apps o view).Pairwise Distinct :=
  (genAttributes_distinct views o view).filter _

variable [LinearOrder Prob] {model : ProbModel Prob} {sort : StdSort Prob}

theorem viewCandidatesApps_eq (hids : ∀ app ∈ apps, SameIds views app)
    (hview : view ∈ views.views) :
    viewCandidatesApps model sort views apps o view =
      if (leftOver views apps o view).isEmpty then none
      else some (sort.sort ((leftOver views apps o view).map fun attr =>
        { attr with prob := model attr views.views })) := by
  rw [viewCandidatesApps, foldlM_filterByApp (findView_isSome hids hview)]
  rfl

/-- What is left is right exactly when nothing common was dropped. -/
theorem intersected_iff :
    Intersected model views apps o view
      (sort.sort ((leftOver views apps o view).map fun attr =>
        { attr with prob := model attr views.views })) ↔ NoneStale views apps o view := by
  rw [← leftOver_eq_iff]
  constructor
  · intro h
    have hsubset : commonAttrs views apps o view ⊆ leftOver views apps o view := by
      intro gen hgen
      have hmem := (h.mem _).mpr ⟨gen, mem_commonAttrs.mp hgen, rfl⟩
      rw [(sort.perm _).mem_iff, List.mem_map] at hmem
      obtain ⟨left, hleft, he⟩ := hmem
      -- the two differ in their probability at most
      have hsame : left = gen := by
        by_contra hne
        have hsymm : Std.Symm (Distinct : Attribute Prob → Attribute Prob → Prop) :=
          ⟨fun _ _ => Distinct.symm⟩
        have hd : Distinct left gen :=
          commonAttrs_distinct.forall (leftOver_sublist.subset hleft) hgen hne
        simp only [Attribute.mk.injEq] at he
        exact hd ⟨he.1, he.2.1, he.2.2.2.2.2.1, he.2.2.2.2.2.2.1⟩
      exact hsame ▸ hleft
    have hnodup : (commonAttrs views apps o view).Nodup := by
      apply commonAttrs_distinct.imp
      rintro a _ hd rfl
      exact hd ⟨rfl, rfl, rfl, rfl⟩
    exact leftOver_sublist.eq_of_length_le (hnodup.subperm hsubset).length_le
  · intro he
    rw [he]
    exact {
      mem := by
        intro attr
        rw [(sort.perm _).mem_iff, List.mem_map]
        constructor
        · rintro ⟨gen, hgen, rfl⟩
          exact ⟨gen, mem_commonAttrs.mp hgen, rfl⟩
        · rintro ⟨gen, hgen, rfl⟩
          exact ⟨gen, mem_commonAttrs.mpr hgen, rfl⟩
      once := by
        rw [(sort.perm _).pairwise_iff Distinct.symm, List.pairwise_map]
        exact commonAttrs_distinct
      sorted := sort.sorted _ }

theorem viewCandidatesApps_eq_none (hids : ∀ app ∈ apps, SameIds views app)
    (hview : view ∈ views.views) :
    viewCandidatesApps model sort views apps o view = none ↔
      leftOver views apps o view = [] := by
  rw [viewCandidatesApps_eq hids hview]
  simp

/-- A view without a common candidate stops the call. -/
theorem stops_of_empty (happs : apps ≠ []) (hids : ∀ app ∈ apps, SameIds views app)
    (hview : view ∈ views.views) (hf : view.isContentFrame = false)
    (hempty : ∀ attr, ¬ Common views apps o view attr) :
    initializeBaseConstraintsApps model sort views apps o = none := by
  have hleft : leftOver views apps o view = [] := by
    apply List.eq_nil_iff_forall_not_mem.mpr
    intro attr hattr
    exact hempty attr (mem_commonAttrs.mp (leftOver_sublist.subset hattr))
  rw [initializeBaseConstraintsApps, if_neg (by simpa using happs), mapM_eq_none_iff]
  exact ⟨view, List.mem_filter.mpr ⟨hview, by simp [hf]⟩,
    (viewCandidatesApps_eq_none hids hview).mpr hleft⟩

/-- When the call returns, its lists are right exactly when no common candidate was stale. -/
theorem intersected_lists_iff (happs : apps ≠ []) (hids : ∀ app ∈ apps, SameIds views app)
    {lists : List (List (Attribute Prob))}
    (h : initializeBaseConstraintsApps model sort views apps o = some lists) :
    List.Forall₂ (Intersected model views apps o)
        (views.views.filter fun view => !view.isContentFrame) lists ↔
      ∀ view ∈ views.views, view.isContentFrame = false → NoneStale views apps o view := by
  rw [initializeBaseConstraintsApps, if_neg (by simpa using happs),
    mapM_eq_some_iff_forall₂] at h
  rw [forall₂_iff_forall h (P := NoneStale views apps o)]
  · simp
  · intro view hview attrs hattrs
    have hview := List.mem_of_mem_filter hview
    rw [viewCandidatesApps_eq hids hview, Option.ite_none_left_eq_some,
      Option.some.injEq] at hattrs
    obtain ⟨_, rfl⟩ := hattrs
    exact intersected_iff

theorem intersects_of_noneStale (happs : apps ≠ []) (hids : ∀ app ∈ apps, SameIds views app)
    (hspared : ∀ view ∈ views.views, view.isContentFrame = false →
      NoneStale views apps o view) :
    Intersects model sort views apps o := by
  unfold Intersects
  cases hresult : initializeBaseConstraintsApps model sort views apps o with
  | some lists => exact (intersected_lists_iff happs hids hresult).mpr hspared
  | none =>
    rw [initializeBaseConstraintsApps, if_neg (by simpa using happs),
      mapM_eq_none_iff] at hresult
    obtain ⟨view, hview, hstop⟩ := hresult
    obtain ⟨hview, hf⟩ := List.mem_filter.mp hview
    have hf : view.isContentFrame = false := by simpa using hf
    refine ⟨view, hview, hf, ?_⟩
    intro attr hattr
    have hmem := mem_commonAttrs.mpr hattr
    rw [← leftOver_eq_iff.mpr (hspared view hview hf),
      (viewCandidatesApps_eq_none hids hview).mp hstop] at hmem
    cases hmem

/-- With one additional app the filter is an intersection. -/
theorem intersects_single {app : App Prob} (hids : SameIds views app) :
    Intersects model sort views [app] o := by
  apply intersects_of_noneStale (by simp)
  · simpa using hids
  · intro view _ _
    exact Flagged.spared_single _ _

/-- The filter computes the intersection exactly when it never meets a common candidate at an
index whose flag is already down, or when a view has no common candidate at all. -/
theorem intersects_iff (model : ProbModel Prob) (sort : StdSort Prob) (views : App Prob)
    (apps : List (App Prob)) (o : Orientation) (happs : apps ≠ [])
    (hids : ∀ app ∈ apps, SameIds views app) :
    Intersects model sort views apps o ↔
      (∃ view ∈ views.views, view.isContentFrame = false ∧
        ∀ attr, ¬ Common views apps o view attr) ∨
      ∀ view ∈ views.views, view.isContentFrame = false → NoneStale views apps o view := by
  constructor
  · intro h
    unfold Intersects at h
    cases hresult : initializeBaseConstraintsApps model sort views apps o with
    | none =>
      rw [hresult] at h
      exact Or.inl h
    | some lists =>
      rw [hresult] at h
      exact Or.inr ((intersected_lists_iff happs hids hresult).mp h)
  · rintro (⟨view, hview, hf, hempty⟩ | hspared)
    · rw [Intersects, stops_of_empty happs hids hview hf hempty]
      exact ⟨view, hview, hf, hempty⟩
    · exact intersects_of_noneStale happs hids hspared

end

/-! ## Two apps -/

/-- A wider screen on which the view of `sampleApp` has moved away from the left. -/
def widerApp : App ℚ := .ofViews [⟨0, 0, 120, 100, 0, 0, fun _ => none, fun _ => none⟩,
  ⟨20, 20, 50, 60, 1, 0, fun _ => none, fun _ => none⟩]

theorem sameIds_sample : ∀ app ∈ [widerApp, sampleApp], SameIds sampleApp app := by
  intro app happ id
  have hids : app.views.map (·.id) = [0, 1] := by
    simp only [List.mem_cons, List.not_mem_nil, or_false] at happ
    obtain rfl | rfl := happ <;> rfl
  rw [hids]
  rfl

theorem intersects_iff_sample :
    Intersects (fun _ _ => 0) (.insertion ℚ) sampleApp [widerApp, sampleApp] .horizontal ↔
      (∃ view ∈ sampleApp.views, view.isContentFrame = false ∧
        ∀ attr, ¬ Common sampleApp [widerApp, sampleApp] .horizontal view attr) ∨
      ∀ view ∈ sampleApp.views, view.isContentFrame = false →
        NoneStale sampleApp [widerApp, sampleApp] .horizontal view :=
  intersects_iff _ _ sampleApp [widerApp, sampleApp] .horizontal (by simp) sameIds_sample

/-- Both apps keep the distance to the right, which the reference has as well. The first one
takes down the flag of the distance to the left, at index 0, where the second one then finds the
distance to the right. -/
theorem common_candidate_dropped :
    ¬ Intersects (fun _ _ => 0) (.insertion ℚ) sampleApp [widerApp, sampleApp] .horizontal := by
  have hstops : initializeBaseConstraintsApps (fun _ _ => 0) (.insertion ℚ) sampleApp
      [widerApp, sampleApp] .horizontal = none := by decide +kernel
  have hcommon : ∀ view ∈ sampleApp.views, view.isContentFrame = false →
      Attribute.ofRelational .r2r .fixed 70 1 0 ∈
        genAttributes .horizontal view sampleApp.views ∧
      ∀ app ∈ [widerApp, sampleApp], appTest sampleApp .horizontal view app
        (.ofRelational .r2r .fixed 70 1 0) = true := by decide +kernel
  rw [Intersects, hstops]
  rintro ⟨view, hview, hf, hempty⟩
  obtain ⟨hgen, hall⟩ := hcommon view hview hf
  exact hempty _ ⟨hgen, fun app happ => appTest_iff.mp (hall app happ)⟩

end ConstraintCache
end InferUI
