import InferUI.Placement
import InferUI.Widening

/-!
# Laying out what was synthesized

`LayoutSolver` on a layout without cycles: what it asserts of one orientation can be satisfied
exactly when the attributes leave places for all views in the given frame, and these are the places
it writes. So a layout that multi-device synthesis has written gets on each device the places that
it was synthesized with.
-/

namespace InferUI
open Store CandidateConstraints
variable {Prob K : Type}

/-! ## The query -/

/-- Assertions that are made view by view. -/
theorem exists_assertions {app : App Prob} {o : Orientation} {f : Z3View → Option (List (Expr K))}
    {P : Nat → Assignment K → Prop}
    (h : ∀ p < app.views.length, ∃ store, f (findView (convertViews app o 0) p) = some store ∧
      ∀ v, Models store v ↔ P p v) :
    ∃ stores, ((convertViews app o 0).mapM f).map List.flatten = some stores ∧
      ∀ v, Models stores v ↔ ∀ p < app.views.length, P p v := by
  obtain ⟨stores, hstores⟩ : ∃ stores, (convertViews app o 0).mapM f = some stores := by
    rw [← Option.isSome_iff_exists, ← Option.ne_none_iff_isSome, Ne, mapM_eq_none_iff]
    rintro ⟨view, hview, hnone⟩
    obtain ⟨p, hlt, rfl⟩ := mem_convertViews.mp hview
    obtain ⟨store, hstore, _⟩ := h p hlt
    rw [hstore] at hnone
    cases hnone
  have hmem (store : List (Expr K)) :
      store ∈ stores ↔ ∃ view ∈ convertViews app o 0, f view = some store := by
    have hmap := congrArg (some store ∈ ·) (mapM_eq_some_iff.mp hstores)
    simp only [List.mem_map, Option.some.injEq, exists_eq_right] at hmap
    rw [← hmap]
  refine ⟨stores.flatten, by rw [hstores, Option.map_some], fun v => ?_⟩
  constructor
  · intro hmodel p hlt
    obtain ⟨store, hstore, hiff⟩ := h p hlt
    have hin := (hmem store).mpr ⟨_, mem_convertViews.mpr ⟨p, hlt, rfl⟩, hstore⟩
    exact (hiff v).mp fun e he => hmodel e (List.mem_flatten.mpr ⟨store, hin, he⟩)
  · intro hall e he
    obtain ⟨store, hin, he⟩ := List.mem_flatten.mp he
    obtain ⟨_, hview, hstore⟩ := (hmem store).mp hin
    obtain ⟨p, hlt, rfl⟩ := mem_convertViews.mp hview
    obtain ⟨store', hstore', hiff⟩ := h p hlt
    obtain rfl : store' = store := Option.some.inj (hstore'.symm.trans hstore)
    exact (hiff v).mpr (hall p hlt) e he

/-- A solver that always answers, and rightly. -/
noncomputable def CheckResult.ideal (query : List (Expr K)) : CheckResult K :=
  open Classical in if h : Sat query then .sat h.choose else .unsat

theorem CheckResult.ideal_right (query : List (Expr K)) :
    (CheckResult.ideal query).Right query := by
  unfold CheckResult.ideal
  split
  · rename_i h
    exact h.choose_spec
  · assumption

theorem CheckResult.ideal_decides (query : List (Expr K)) :
    CheckResult.ideal query ≠ .unknown := by
  unfold CheckResult.ideal
  split <;> intro h <;> cases h

namespace GivenLayout
section
variable {app ref : App Prob} {o : Orientation} {v : Assignment K} {p : Nat}
variable {printed : ℚ → K} {attr : Attribute Prob}

/-- A place of view `p` has the size that the attribute asks for. -/
def FitsSize (ref : App Prob) (o : Orientation) (p : Nat) (attr : Attribute Prob)
    (place : Int × Int) : Prop :=
  if attr.viewSize = .fixed then place.1 + (ref.views[p]?).elim 0 (·.size o) = place.2
  else 0 ≤ place.2 - place.1

/-- The margins and the bias of view `p` are those of the attribute. -/
structure HasNumbers (printed : ℚ → K) (o : Orientation) (v : Assignment K) (p : Nat)
    (attr : Attribute Prob) : Prop where
  start : v.marginStart (uniqueId p o) = attr.valuePrimary
  «end» : v.marginEnd (uniqueId p o) = attr.valueSecondary
  bias : v.bias (uniqueId p o) = printed attr.bias

/-- Every view but the root has an attribute. -/
def HasAttributes (app ref : App Prob) (o : Orientation) : Prop :=
  ∀ p, p ≠ 0 → p < app.views.length → ∃ attr, ref.getAttribute o p = some attr

theorem exists_viewSizeAssertions (hsize : ∀ view ∈ ref.views, 0 ≤ view.size o) (hp : p ≠ 0)
    (hlt : p < app.views.length) (hattr : ref.getAttribute o p = some attr) :
    ∃ store : List (Expr K),
      viewSizeAssertions o ref (findView (convertViews app o 0) p) = some store ∧
      ∀ v, Models store v ↔ FitsSize ref o p attr (positionsOn v o 0 p) := by
  have hnonneg : 0 ≤ (ref.views[p]?).elim 0 (·.size o) := by
    cases hold : ref.views[p]? with
    | none => exact le_refl _
    | some view => exact hsize view (List.mem_of_getElem? hold)
  rw [viewSizeAssertions, findView_pos hlt, if_neg hp, hattr, Option.bind_some,
    findView_eq (List.getElem?_eq_getElem hlt)]
  by_cases hfixed : attr.viewSize = .fixed
  · rw [if_pos hfixed, if_pos hnonneg]
    refine ⟨_, rfl, fun v => ?_⟩
    rw [FitsSize, if_pos hfixed, models_cons, decide_eq_true_eq]
    exact and_iff_left (models_nil v)
  · rw [if_neg hfixed]
    refine ⟨_, rfl, fun v => ?_⟩
    rw [FitsSize, if_neg hfixed, models_cons, decide_eq_true_eq]
    exact and_iff_left (models_nil v)

theorem exists_setSize (hsize : ∀ view ∈ ref.views, 0 ≤ view.size o)
    (hattrs : HasAttributes app ref o) :
    ∃ sizes : List (Expr K), setSize o ref (convertViews app o 0) = some sizes ∧
      ∀ v, Models sizes v ↔ ∀ p < app.views.length,
        (p = 0 → positionsOn v o 0 0 = app.places o 0) ∧
        (p ≠ 0 → ∀ attr, ref.getAttribute o p = some attr →
          FitsSize ref o p attr (positionsOn v o 0 p)) := by
  apply exists_assertions
  intro p hlt
  by_cases hp : p = 0
  · subst hp
    have hview := List.getElem?_eq_getElem hlt
    rw [viewSizeAssertions, findView_pos hlt]
    refine ⟨_, if_pos rfl, fun v => ?_⟩
    rw [models_assertPosition hview, App.places, edgeAt_eq hview, edgeAt_eq hview]
    constructor
    · rintro ⟨hstart, hend⟩
      exact ⟨fun _ => Prod.ext hstart hend, fun hne => absurd rfl hne⟩
    · rintro ⟨hroot, _⟩
      exact Prod.ext_iff.mp (hroot rfl)
  · obtain ⟨attr, hattr⟩ := hattrs p hp hlt
    obtain ⟨store, hstore, hmodels⟩ := exists_viewSizeAssertions (K := K) hsize hp hlt hattr
    refine ⟨store, hstore, fun v => ?_⟩
    rw [hmodels]
    constructor
    · intro h
      refine ⟨fun hzero => absurd hzero hp, fun _ attr' hattr' => ?_⟩
      obtain rfl := Option.some.inj (hattr.symm.trans hattr')
      exact h
    · rintro ⟨_, h⟩
      exact h hp attr hattr

theorem exists_setMargins [DecidableEq K] (printed : ℚ → K) (hattrs : HasAttributes app ref o) :
    ∃ margins : List (Expr K), setMargins printed o ref (convertViews app o 0) = some margins ∧
      ∀ v, Models margins v ↔ ∀ p < app.views.length, p ≠ 0 → ∀ attr,
        ref.getAttribute o p = some attr → HasNumbers printed o v p attr := by
  apply exists_assertions
  intro p hlt
  rw [viewMarginAssertions, findView_pos hlt]
  by_cases hp : p = 0
  · exact ⟨[], if_pos hp, fun v => ⟨fun _ hne => absurd hp hne, fun _ => models_nil v⟩⟩
  · obtain ⟨attr, hattr⟩ := hattrs p hp hlt
    rw [if_neg hp, hattr]
    refine ⟨_, rfl, fun v => ?_⟩
    simp only [models_cons, decide_eq_true_eq, Z3View.marginStart, Z3View.marginEnd, Z3View.bias,
      findView_uniqueId hlt]
    constructor
    · rintro ⟨hstart, hend, hbias, _⟩ _ attr' hattr'
      obtain rfl := Option.some.inj hattr'
      exact ⟨hstart, hend, hbias⟩
    · intro h
      obtain ⟨hstart, hend, hbias⟩ := h hp attr rfl
      exact ⟨hstart, hend, hbias, models_nil v⟩

end

/-! ### The constraints -/

section
variable {app ref : App Prob} {o : Orientation} {v : Assignment K} {p : Nat}
variable {printed : ℚ → K} {attr : Attribute Prob}

theorem finishedAdding_eq {views : List Z3View} {added : List (Z3View × Enumerated K)}
    (h : ∀ view ∈ nonRoot views, ∃ only, constraintsOf added view.pos = [only]) :
    finishedAddingConstraints views added = some ((nonRoot views).map fun view v =>
      (constraintsOf added view.pos).all fun only => v.select (only.name view)) := by
  rw [finishedAddingConstraints, mapM_eq_some_iff, List.map_map]
  apply List.map_congr_left
  intro view hview
  obtain ⟨only, honly⟩ := h view hview
  simp only [honly, Function.comp_apply, List.all_cons, List.all_nil, Bool.and_true]

variable [Field K] [LinearOrder K] [FloorRing K]

/-- The constraints that are added, view by view. -/
theorem models_enumerateConstraints {filter : ConstraintData → Z3View → Bool}
    {added : List (Z3View × Enumerated K)}
    (hadded : added = enumerateConstraints o filter (convertViews app o 0)) :
    Models (added.map fun entry => entry.2.assertion entry.1) v ↔
      ∀ view ∈ nonRoot (convertViews app o 0), ∀ entry ∈ constraintsOf added view.pos,
        entry.assertion view v = true := by
  have hsource (fn : Z3View → List (Enumerated K)) {entry : Z3View × Enumerated K}
      (h : entry ∈ forEachNonRootView (convertViews app o 0) fn) :
      entry.1 ∈ nonRoot (convertViews app o 0) := by
    obtain ⟨src, hsrc, h⟩ := List.mem_flatMap.mp h
    obtain ⟨_, _, rfl⟩ := List.mem_map.mp h
    exact hsrc
  have hsources {entry : Z3View × Enumerated K} (h : entry ∈ added) :
      entry.1 ∈ nonRoot (convertViews app o 0) := by
    rw [hadded] at h
    rcases List.mem_append.mp h with h | h
    · rcases List.mem_append.mp h with h | h
      · exact hsource _ h
      · exact hsource _ h
    · exact hsource _ h
  rw [models_map]
  constructor
  · intro h view hview entry hentry
    obtain ⟨⟨src, _⟩, hmem, rfl⟩ := List.mem_map.mp hentry
    obtain ⟨hin, hpos⟩ := List.mem_filter.mp hmem
    obtain ⟨q, _, hlt, rfl⟩ := mem_nonRoot.mp hview
    obtain ⟨q', _, hlt', hsrc⟩ := mem_nonRoot.mp (hsources hin)
    dsimp only at hsrc hpos
    rw [decide_eq_true_eq, ← hsrc, findView_pos hlt, findView_pos hlt'] at hpos
    have hholds := h _ hin
    dsimp only at hholds
    rwa [← hsrc, hpos] at hholds
  · intro h entry hentry
    refine h _ (hsources hentry) _ (List.mem_map.mpr ⟨entry, List.mem_filter.mpr ⟨hentry, ?_⟩, rfl⟩)
    exact decide_eq_true rfl

/-- The attribute of view `p` is selected and holds. -/
structure Selected (app : App Prob) (o : Orientation) (v : Assignment K) (p : Nat)
    (attr : Attribute Prob) : Prop where
  selected : v.select (attributeName (convertViews app o 0) attr) = true
  value : attributeValue (convertViews app o 0) attr v = true
  anchor : v.anchor (uniqueId p o) = (attr.targets.map fun t => v.anchor (uniqueId t o)).sum + 1

theorem selected_iff (hlt : p < app.views.length) (hproper : attr.Proper app.views.length o p) :
    ((ownConstraint (K := K) (convertViews app o 0) (findView (convertViews app o 0) p)
          attr).assertion (findView (convertViews app o 0) p) v = true ∧
        v.select ((ownConstraint (K := K) (convertViews app o 0) (findView (convertViews app o 0) p)
          attr).name (findView (convertViews app o 0) p)) = true) ↔ Selected app o v p attr := by
  set src := findView (convertViews app o 0) p with hsrc
  set own := ownConstraint (K := K) (convertViews app o 0) src attr
  obtain ⟨hvalue, hanchor⟩ := ownConstraint_value (K := K) hproper hsrc.symm
  have hname : own.name src = attributeName (convertViews app o 0) attr := by
    unfold attributeName
    rw [hproper.own]
    cases hrel : attr.type.isRelationalAnchor with
    | true =>
      obtain ⟨_, hsize⟩ := hproper.relational hrel
      simp only [own, Enumerated.name, ownConstraint, secondaryView, hrel, hsize, ↓reduceIte, src]
    | false =>
      simp only [own, Enumerated.name, ownConstraint, secondaryView, hrel, Bool.false_eq_true,
        ↓reduceIte, src]
  rw [Enumerated.assertion, implies_eq_true, hname, hvalue, Bool.and_eq_true, decide_eq_true_eq,
    hanchor, anchorValue_eq hproper, Z3View.anchor, findView_uniqueId hlt]
  constructor
  · rintro ⟨h, hselected⟩
    exact ⟨hselected, (h hselected).1, (h hselected).2⟩
  · rintro ⟨hselected, hholds, hdepth⟩
    exact ⟨fun _ => ⟨hholds, hdepth⟩, hselected⟩

/-- For each view one constraint is added and selected, that of its attribute. -/
theorem exists_selection {rank : Nat → Nat} (hlen : app.views.length = ref.views.length)
    (hvalid : AllValid ref o) (hformed : ref.Formed o rank) :
    ∃ (names : List (List Char)) (added : List (Z3View × Enumerated K)) (selected : List (Expr K)),
      collectConstraints o ref (convertViews app o 0) = some names ∧
      added = enumerateConstraints o (fun name _ => decide (name.print ∈ names))
        (convertViews app o 0) ∧
      finishedAddingConstraints (convertViews app o 0) added = some selected ∧
      ∀ v, (Models (added.map fun entry => entry.2.assertion entry.1) v ∧ Models selected v) ↔
        ∀ p, p ≠ 0 → p < app.views.length → ∀ attr, ref.getAttribute o p = some attr →
          Selected app o v p attr := by
  obtain ⟨names, hnames⟩ : ∃ names, collectConstraints o ref (convertViews app o 0) = some names :=
    exists_names hlen hvalid
  obtain ⟨added, hadded⟩ : ∃ added, added = enumerateConstraints (K := K) o
      (fun name _ => decide (name.print ∈ names)) (convertViews app o 0) := ⟨_, rfl⟩
  have hown (p : Nat) (hp : p ≠ 0) (hlt : p < app.views.length) : ∃ attr,
      ref.getAttribute o p = some attr ∧ attr.Proper app.views.length o p ∧
      constraintsOf added (findView (convertViews app o 0) p).pos =
        [ownConstraint (convertViews app o 0) (findView (convertViews app o 0) p) attr] := by
    obtain ⟨attr, hattr, hproper, _⟩ := hformed p hp (hlen ▸ hlt)
    refine ⟨attr, hattr, hlen ▸ hproper, ?_⟩
    rw [findView_pos hlt, hadded]
    exact constraintsOf_collected hlen hvalid hnames hp hlt hattr
  have hone : ∀ view ∈ nonRoot (convertViews app o 0), ∃ only,
      constraintsOf added view.pos = [only] := by
    rw [forall_nonRoot]
    intro p hp hlt
    obtain ⟨attr, _, _, honly⟩ := hown p hp hlt
    exact ⟨_, honly⟩
  refine ⟨names, added, _, hnames, hadded, finishedAdding_eq hone, fun v => ?_⟩
  rw [models_enumerateConstraints hadded, models_map, forall_nonRoot, forall_nonRoot]
  have hview (p : Nat) (hp : p ≠ 0) (hlt : p < app.views.length) :
      ((∀ entry ∈ constraintsOf added (findView (convertViews app o 0) p).pos,
          entry.assertion (findView (convertViews app o 0) p) v = true) ∧
        (constraintsOf added (findView (convertViews app o 0) p).pos).all
          (fun only => v.select (only.name (findView (convertViews app o 0) p))) = true) ↔
        ∀ attr, ref.getAttribute o p = some attr → Selected app o v p attr := by
    obtain ⟨attr, hattr, hproper, honly⟩ := hown p hp hlt
    simp only [hattr, Option.some.injEq, forall_eq', honly, List.mem_singleton, forall_eq,
      List.all_cons, List.all_nil, Bool.and_true]
    exact selected_iff hlt hproper
  constructor
  · rintro ⟨hasserted, hselected⟩ p hp hlt
    exact (hview p hp hlt).mp ⟨hasserted p hp hlt, hselected p hp hlt⟩
  · intro h
    exact ⟨fun p hp hlt => ((hview p hp hlt).mpr (h p hp hlt)).1,
      fun p hp hlt => ((hview p hp hlt).mpr (h p hp hlt)).2⟩

/-- What `Layout` asserts along one orientation. -/
structure Given (printed : ℚ → K) (app ref : App Prob) (o : Orientation) (v : Assignment K) :
    Prop where
  root : positionsOn v o 0 0 = app.places o 0
  views : ∀ p, p ≠ 0 → p < app.views.length → ∀ attr, ref.getAttribute o p = some attr →
    FitsSize ref o p attr (positionsOn v o 0 p) ∧ HasNumbers printed o v p attr ∧
      Selected app o v p attr

/-- The app with the positions of a model along one orientation. -/
def placeViews (o : Orientation) (v : Assignment K) (app : App Prob) : Option (App Prob) :=
  (((convertViews app o 0).zip app.views).mapM fun pair =>
    assignPosition o v pair.1 pair.2).map App.ofViews

/-- The solver is asked for a model of what is given, and the positions of the model are written. -/
theorem exists_query {rank : Nat → Nat} (hroot : 0 < app.views.length)
    (hlen : app.views.length = ref.views.length) (hcount : app.views.length ≤ 1000)
    (hsize : ∀ view ∈ ref.views, 0 ≤ view.size o) (hvalid : AllValid ref o)
    (hformed : ref.Formed o rank) (printed : ℚ → K) :
    ∃ query : List (Expr K), (∀ v, Models query v ↔ Given printed app ref o v) ∧
      ∀ check, layoutOrientation check printed app ref o =
        match check query with
        | .sat model => (placeViews o model app).map fun laid => (.success, laid)
        | .unsat | .unknown => some (.unsat, app) := by
  have hattrs : HasAttributes app ref o := by
    intro p hp hlt
    obtain ⟨attr, hattr, _⟩ := hformed p hp (hlen ▸ hlt)
    exact ⟨attr, hattr⟩
  obtain ⟨sizes, hsizes, hmodelSizes⟩ := exists_setSize (K := K) hsize hattrs
  obtain ⟨margins, hmargins, hmodelMargins⟩ := exists_setMargins printed hattrs
  obtain ⟨names, added, selected, hnames, hadded, hselected, hmodelSelected⟩ :=
    exists_selection (K := K) hlen hvalid hformed
  refine ⟨sizes ++ margins ++ (added.map fun entry => entry.2.assertion entry.1) ++ selected,
    fun v => ?_, fun check => ?_⟩
  · rw [models_append, models_append, models_append, hmodelSizes, hmodelMargins, and_assoc,
      hmodelSelected]
    constructor
    · rintro ⟨⟨hsized, hnumbers⟩, hchosen⟩
      refine ⟨(hsized 0 hroot).1 rfl, fun p hp hlt attr hattr => ?_⟩
      exact ⟨(hsized p hlt).2 hp attr hattr, hnumbers p hlt hp attr hattr,
        hchosen p hp hlt attr hattr⟩
    · rintro ⟨hplaced, hviews⟩
      refine ⟨⟨fun p hlt => ⟨fun _ => hplaced, fun hp attr hattr => ?_⟩,
        fun p hlt hp attr hattr => ?_⟩, fun p hp hlt attr hattr => ?_⟩
      · exact (hviews p hp hlt attr hattr).1
      · exact (hviews p hp hlt attr hattr).2.1
      · exact (hviews p hp hlt attr hattr).2.2
  · rw [layoutOrientation, if_neg (by omega)]
    dsimp only
    rw [hsizes, Option.bind_some, hmargins, Option.bind_some, hnames, Option.bind_some, ← hadded,
      hselected]
    dsimp only
    generalize check _ = answer
    cases answer with
    | sat model =>
      dsimp only
      rw [placeViews, Option.map_map]
      rfl
    | unsat => rfl
    | unknown => rfl

/-! ## The places of a model -/

omit [LinearOrder K] [FloorRing K] in
theorem HasNumbers.sameMargins (h : HasNumbers printed o v p attr)
    (hprinted : printed attr.bias = attr.bias) (pos : Nat → Int × Int) :
    SameMargins (uniqueId p o) v ((attr.numbers K (uniqueId p o)).withPositions o pos) := by
  refine ⟨?_, ?_, ?_⟩
  · simp [Attribute.numbers, Assignment.withPositions, Assignment.withAttribute, h.start]
  · simp [Attribute.numbers, Assignment.withPositions, Assignment.withAttribute, h.end]
  · simp [Attribute.numbers, Assignment.withPositions, Assignment.withAttribute, h.bias, hprinted]

/-- With the biases printed exactly, a model places the views where the attributes hold. -/
theorem Given.laidOut {rank : Nat → Nat} (h : Given printed app ref o v)
    (hlen : app.views.length = ref.views.length) (hformed : ref.Formed o rank)
    (hprinted : ∀ p, p ≠ 0 → ∀ attr, ref.getAttribute o p = some attr →
      printed attr.bias = attr.bias) :
    ref.LaidOut K o (positionsOn v o 0) := by
  intro p hp hlt
  obtain ⟨attr, hattr, hproper, _⟩ := hformed p hp hlt
  obtain ⟨hsize, hnumbers, hselected⟩ := h.views p hp (hlen ▸ hlt) attr hattr
  refine ⟨attr, hattr, ?_, hsize⟩
  have hplaces : HasPositions ref.views.length o (positionsOn v o 0) v 0 :=
    ⟨fun _ _ => rfl, fun _ _ => rfl⟩
  exact attributeValue_at hlen rfl hproper hlt hplaces (hasPositions_withPositions _ _ o _ 0)
    (hnumbers.sameMargins (hprinted p hp attr hattr) _) hselected.value

/-- The numbers of the attributes of a layout, with all booleans true. -/
def layoutModel (printed : ℚ → K) (ref : App Prob) (o : Orientation) (anchors : Nat → Int) :
    Assignment K where
  positionStart _ _ := 0
  positionEnd _ _ := 0
  marginStart u := (ref.getAttribute o (u - 1000 * o.toIndex)).elim 0 (·.valuePrimary)
  marginEnd u := (ref.getAttribute o (u - 1000 * o.toIndex)).elim 0 (·.valueSecondary)
  anchor u := anchors (u - 1000 * o.toIndex)
  bias u := (ref.getAttribute o (u - 1000 * o.toIndex)).elim 0 fun attr => printed attr.bias
  cost _ := 0
  satisfied _ _ := true
  select _ := true

/-- Anchors for a layout without cycles: those of the targets and one more. -/
theorem exists_anchors {rank : Nat → Nat} (hformed : ref.Formed o rank) :
    ∃ anchors : Nat → Int, ∀ p, p ≠ 0 → p < ref.views.length → ∀ attr,
      ref.getAttribute o p = some attr → anchors p = (attr.targets.map anchors).sum + 1 := by
  let targets (p : Nat) : List Nat :=
    if p ≠ 0 ∧ p < ref.views.length then (ref.getAttribute o p).elim [] Attribute.targets else []
  have hrank (p : Nat) : ∀ t ∈ targets p, rank t < rank p := by
    intro t ht
    by_cases hp : p ≠ 0 ∧ p < ref.views.length
    · obtain ⟨attr, hattr, _, hless⟩ := hformed p hp.1 hp.2
      simp only [targets, if_pos hp, hattr, Option.elim_some] at ht
      exact hless t ht
    · simp only [targets, if_neg hp] at ht
      cases ht
  obtain ⟨anchors, hanchors⟩ := Search.exists_by_rank rank
    (fun (f : Nat → Int) p => ((targets p).map f).sum + 1) (by
      intro f g p hsame
      have hmap : (targets p).map f = (targets p).map g :=
        List.map_congr_left fun t ht => hsame t (hrank p t ht)
      rw [hmap])
  refine ⟨anchors, fun p hp hlt attr hattr => ?_⟩
  have hstep := hanchors p
  simp only [targets, if_pos (And.intro hp hlt), hattr, Option.elim_some] at hstep
  exact hstep

/-- Places at which the attributes hold, in the frame of the app, are those of a model. -/
theorem exists_given {rank : Nat → Nat} (hlen : app.views.length = ref.views.length)
    (hformed : ref.Formed o rank)
    (hprinted : ∀ p, p ≠ 0 → ∀ attr, ref.getAttribute o p = some attr →
      printed attr.bias = attr.bias)
    {pos : Nat → Int × Int} (hpos : ref.LaidOut K o pos) (hroot : pos 0 = app.places o 0) :
    ∃ v, Given printed app ref o v ∧ positionsOn v o 0 = pos := by
  obtain ⟨anchors, hanchors⟩ := exists_anchors hformed
  have hplaces : positionsOn ((layoutModel printed ref o anchors).withPositions o pos) o 0 =
      pos := by
    funext p
    simp only [positionsOn, Assignment.withPositions, uniqueId_sub]
  refine ⟨(layoutModel printed ref o anchors).withPositions o pos, ⟨?_, ?_⟩, hplaces⟩
  · rw [hplaces, hroot]
  · intro p hp hlt attr hattr
    have hltRef : p < ref.views.length := hlen ▸ hlt
    obtain ⟨own, hown, hproper, _⟩ := hformed p hp hltRef
    obtain ⟨laid, hlaid, hvalue, hsize⟩ := hpos p hp hltRef
    obtain rfl := Option.some.inj (hattr.symm.trans hown)
    obtain rfl := Option.some.inj (hattr.symm.trans hlaid)
    have hnumbers : HasNumbers printed o ((layoutModel printed ref o anchors).withPositions o pos)
        p attr := by
      constructor <;>
        simp only [Assignment.withPositions, layoutModel, uniqueId_sub, hattr, Option.elim_some]
    refine ⟨by rw [hplaces]; exact hsize, hnumbers, rfl, ?_, ?_⟩
    · have hsame := hnumbers.sameMargins (hprinted p hp attr hattr) pos
      have hthere : HasPositions ref.views.length o pos
          ((Attribute.numbers K attr (uniqueId p o)).withPositions o pos) 0 :=
        hasPositions_withPositions _ _ o pos 0
      have hback : SameMargins (uniqueId p o)
          ((Attribute.numbers K attr (uniqueId p o)).withPositions o pos)
          ((layoutModel printed ref o anchors).withPositions o pos) :=
        ⟨hsame.start.symm, hsame.end.symm, hsame.bias.symm⟩
      exact attributeValue_at rfl hlen hproper hltRef hthere
        (hasPositions_withPositions _ _ o pos 0) hback hvalue
    · simp only [Assignment.withPositions, layoutModel, uniqueId_sub]
      exact hanchors p hp hltRef attr hattr

end

/-! ## Writing the places -/

section
variable {app laid : App Prob} {o : Orientation} {v : Assignment K} {p : Nat}

/-- The positions of a model that an `int` can hold. -/
def FitsInt (place : Int × Int) : Prop :=
  (-2 ^ 31 ≤ place.1 ∧ place.1 < 2 ^ 31) ∧ -2 ^ 31 ≤ place.2 ∧ place.2 < 2 ^ 31

instance (place : Int × Int) : Decidable (FitsInt place) := inferInstanceAs (Decidable (_ ∧ _))

theorem assignPosition_edge {z3View : Z3View} {view placed : View Prob}
    (h : assignPosition o v z3View view = some placed) :
    (∀ s, placed.edge o s = if z3View.pos = 0 then view.edge o s else z3View.edge s v) ∧
      ∀ o', o' ≠ o → ∀ s, placed.edge o' s = view.edge o' s := by
  unfold assignPosition at h
  by_cases hp : z3View.pos = 0
  · rw [if_pos hp] at h
    obtain rfl := Option.some.inj h
    exact ⟨fun s => (if_pos hp).symm, fun _ _ _ => rfl⟩
  · rw [if_neg hp] at h
    split at h
    · obtain rfl := Option.some.inj h
      refine ⟨fun s => ?_, fun o' hne s => ?_⟩
      · rw [if_neg hp]
        cases o <;> cases s <;> rfl
      · cases o <;> cases o' <;> cases s <;> first | rfl | exact absurd rfl hne
    · cases h

/-- The views of a layout are those that `assignPosition` returns. -/
theorem exists_placed (h : placeViews o v app = some laid) :
    laid.views.length = app.views.length ∧ ∀ (p : Nat) (hlt : p < app.views.length), ∃ view,
      assignPosition o v (findView (convertViews app o 0) p) app.views[p] = some view ∧
      ∀ o' s, laid.edgeAt o' p s = view.edge o' s := by
  obtain ⟨placed, hplaced, rfl⟩ := Option.map_eq_some_iff.mp h
  have hpairs := mapM_eq_some_iff_forall₂.mp hplaced
  have hlength : placed.length = app.views.length := by
    simpa [convertViews] using hpairs.length_eq.symm
  refine ⟨by simp [App.ofViews, hlength], fun p hlt => ?_⟩
  have hzip : ((convertViews app o 0).zip app.views)[p]? =
      some (findView (convertViews app o 0) p, app.views[p]) := by
    rw [List.getElem?_zip_eq_some, convertViews_getElem?, List.getElem?_eq_getElem hlt,
      findView_eq (List.getElem?_eq_getElem hlt)]
    exact ⟨rfl, rfl⟩
  rcases getElem?_of_forall₂ hpairs p with ⟨hnone, _⟩ | ⟨pair, view, hpair, hp, hassign⟩
  · rw [hzip] at hnone
    cases hnone
  · obtain rfl := Option.some.inj (hzip.symm.trans hpair)
    refine ⟨view, hassign, fun o' s => ?_⟩
    rw [App.edgeAt, App.views_ofViews, hp]
    cases o' <;> cases s <;> rfl

/-- Only the views but the root get new places, and only along the orientation. -/
theorem places_placeViews (h : placeViews o v app = some laid) :
    laid.views.length = app.views.length ∧
      (∀ p < app.views.length,
        laid.places o p = if p = 0 then app.places o 0 else positionsOn v o 0 p) ∧
      ∀ o', o' ≠ o → ∀ p < app.views.length, laid.places o' p = app.places o' p := by
  obtain ⟨hlength, hplaced⟩ := exists_placed h
  refine ⟨hlength, fun p hlt => ?_, fun o' hne p hlt => ?_⟩
  · obtain ⟨view, hassign, hedge⟩ := hplaced p hlt
    obtain ⟨halong, _⟩ := assignPosition_edge hassign
    rw [App.places, hedge, hedge, halong, halong, findView_pos hlt]
    by_cases hzero : p = 0
    · subst hzero
      have hroot := List.getElem?_eq_getElem hlt
      rw [if_pos rfl, if_pos rfl, if_pos rfl, App.places, edgeAt_eq hroot, edgeAt_eq hroot]
    · rw [if_neg hzero, if_neg hzero, if_neg hzero, findView_eq (List.getElem?_eq_getElem hlt)]
      rfl
  · obtain ⟨view, hassign, hedge⟩ := hplaced p hlt
    obtain ⟨_, hother⟩ := assignPosition_edge hassign
    have hold := List.getElem?_eq_getElem hlt
    rw [App.places, App.places, hedge, hedge, hother o' hne, hother o' hne, edgeAt_eq hold,
      edgeAt_eq hold]

theorem exists_placeViews
    (h : ∀ p, p ≠ 0 → p < app.views.length → FitsInt (positionsOn v o 0 p)) :
    ∃ laid, placeViews o v app = some laid := by
  rw [← Option.isSome_iff_exists, placeViews, Option.isSome_map, ← Option.ne_none_iff_isSome, Ne,
    mapM_eq_none_iff]
  rintro ⟨⟨z3View, view⟩, hmem, hnone⟩
  obtain ⟨p, hlt, rfl⟩ := mem_convertViews.mp (List.of_mem_zip hmem).1
  unfold assignPosition at hnone
  rw [findView_pos hlt] at hnone
  by_cases hp : p = 0
  · rw [if_pos hp] at hnone
    cases hnone
  · obtain ⟨⟨hlow, hhigh⟩, hlow', hhigh'⟩ := h p hp hlt
    rw [if_neg hp, findView_eq (List.getElem?_eq_getElem hlt), if_pos] at hnone
    · cases hnone
    · simp only [Bool.and_eq_true, decide_eq_true_eq]
      exact ⟨⟨hlow, hhigh⟩, hlow', hhigh'⟩

end

/-! ## Laying out -/

section
variable [Field K] [LinearOrder K] [FloorRing K]
variable {app ref laid : App Prob} {o : Orientation} {rank : Nat → Nat} {pos : Nat → Int × Int}
variable {printed : ℚ → K} {check : List (Expr K) → CheckResult K}

/-- Where views beyond the last one are does not count. -/
theorem laidOut_congr {pos' : Nat → Int × Int} (hformed : ref.Formed o rank)
    (hpos : ref.LaidOut K o pos) (hsame : ∀ p < ref.views.length, pos' p = pos p) :
    ref.LaidOut K o pos' := by
  intro p hp hlt
  obtain ⟨attr, hattr, hproper, _⟩ := hformed p hp hlt
  obtain ⟨laid, hlaid, hvalue, hsize⟩ := hpos p hp hlt
  obtain rfl := Option.some.inj (hattr.symm.trans hlaid)
  refine ⟨attr, hattr, ?_, by rwa [hsame p hlt]⟩
  have hthere : HasPositions ref.views.length o pos
      ((Attribute.numbers K attr (uniqueId p o)).withPositions o pos') 0 := by
    have hpos' := hasPositions_withPositions ref.views.length
      (Attribute.numbers K attr (uniqueId p o)) o pos' 0
    exact ⟨fun q hq => (hpos'.start q hq).trans (by rw [hsame q hq]),
      fun q hq => (hpos'.end q hq).trans (by rw [hsame q hq])⟩
  exact attributeValue_at rfl rfl hproper hlt (hasPositions_withPositions _ _ o pos 0) hthere
    ⟨rfl, rfl, rfl⟩ hvalue

/-- A layout without cycles of constraints that the enumerations list. No view has a negative size,
and the biases are printed exactly. -/
structure Ready (printed : ℚ → K) (ref : App Prob) (o : Orientation) (rank : Nat → Nat) : Prop where
  formed : ref.Formed o rank
  valid : AllValid ref o
  size : ∀ view ∈ ref.views, 0 ≤ view.size o
  printed : ∀ p, p ≠ 0 → ∀ attr, ref.getAttribute o p = some attr → printed attr.bias = attr.bias

/-- The places of one orientation are those of the attributes, and the frame is kept. -/
theorem layoutOrientation_laidOut (h : Ready printed ref o rank) (hroot : 0 < app.views.length)
    (hlen : app.views.length = ref.views.length) (hcheck : ∀ query, (check query).Right query)
    (hlayout : layoutOrientation check printed app ref o = some (.success, laid)) :
    laid.views.length = app.views.length ∧ ref.LaidOut K o (laid.places o) ∧
      laid.places o 0 = app.places o 0 ∧
      ∀ o', o' ≠ o → ∀ p < app.views.length, laid.places o' p = app.places o' p := by
  have hcount : app.views.length ≤ 1000 := by
    by_contra hmore
    rw [layoutOrientation, if_pos (by omega)] at hlayout
    cases hlayout
  obtain ⟨query, hquery, hanswer⟩ := exists_query hroot hlen hcount h.size h.valid h.formed printed
  rw [hanswer] at hlayout
  have hright := hcheck query
  cases hcase : check query with
  | unsat =>
    rw [hcase] at hlayout
    cases hlayout
  | unknown =>
    rw [hcase] at hlayout
    cases hlayout
  | sat v =>
    rw [hcase] at hlayout hright
    obtain ⟨placed, hplaced, hsame⟩ := Option.map_eq_some_iff.mp hlayout
    obtain rfl : placed = laid := congrArg Prod.snd hsame
    obtain ⟨hlength, halong, hother⟩ := places_placeViews hplaced
    have hgiven := (hquery v).mp hright
    refine ⟨hlength, ?_, halong 0 hroot, hother⟩
    refine laidOut_congr h.formed (hgiven.laidOut hlen h.formed h.printed) fun p hlt => ?_
    rw [halong p (hlen ▸ hlt)]
    by_cases hp : p = 0
    · rw [if_pos hp, hp, hgiven.root]
    · rw [if_neg hp]

variable [IsStrictOrderedRing K]

/-- A solver that decides the query finds the places at which the attributes hold. -/
theorem exists_layoutOrientation (h : Ready printed ref o rank) (hroot : 0 < app.views.length)
    (hlen : app.views.length = ref.views.length) (hcount : app.views.length ≤ 1000)
    (hcheck : ∀ query, (check query).Right query) (hdecides : ∀ query, check query ≠ .unknown)
    (hpos : ref.LaidOut K o pos) (hframe : pos 0 = app.places o 0)
    (hfits : ∀ p < app.views.length, FitsInt (pos p)) :
    ∃ laid, layoutOrientation check printed app ref o = some (.success, laid) := by
  obtain ⟨query, hquery, hanswer⟩ := exists_query hroot hlen hcount h.size h.valid h.formed printed
  have hright := hcheck query
  rw [hanswer]
  cases hcase : check query with
  | unsat =>
    rw [hcase] at hright
    obtain ⟨v, hv, _⟩ := exists_given hlen h.formed h.printed hpos hframe
    exact absurd ⟨v, (hquery v).mpr hv⟩ hright
  | unknown => exact absurd hcase (hdecides query)
  | sat v =>
    rw [hcase] at hright
    have hgiven := (hquery v).mp hright
    have hplaces (p : Nat) (hlt : p < app.views.length) : positionsOn v o 0 p = pos p :=
      h.formed.unique (hgiven.laidOut hlen h.formed h.printed) hpos (hgiven.root.trans hframe.symm)
        (hlen ▸ hlt)
    have hfit : ∀ p, p ≠ 0 → p < app.views.length → FitsInt (positionsOn v o 0 p) := by
      intro p _ hlt
      rw [hplaces p hlt]
      exact hfits p hlt
    obtain ⟨laid, hlaid⟩ := exists_placeViews hfit
    exact ⟨laid, Option.map_eq_some_iff.mpr ⟨laid, hlaid, rfl⟩⟩

/-! ### Both orientations -/

/-- `Layout` in a frame that is given by orientation. -/
def layoutIn (check : List (Expr K) → CheckResult K) (printed : ℚ → K) (ref : App Prob)
    (frame : Orientation → Int × Int) : Option (Status × App Prob) :=
  layout check printed ref (frame .horizontal).1 (frame .vertical).1 (frame .horizontal).2
    (frame .vertical).2

/-- In the frame the attributes of both orientations hold at these places. -/
def Fills (K : Type) [Field K] [LinearOrder K] [FloorRing K] (ref : App Prob)
    (frame : Orientation → Int × Int) (pos : Orientation → Nat → Int × Int) : Prop :=
  ∀ o, ref.LaidOut K o (pos o) ∧ pos o 0 = frame o

variable {frame : Orientation → Int × Int} {ranks : Orientation → Nat → Nat}

omit [Field K] [LinearOrder K] [FloorRing K] [IsStrictOrderedRing K] in
theorem places_framed (hroot : ref.Rooted) (o : Orientation) :
    (framed ref (frame .horizontal).1 (frame .vertical).1 (frame .horizontal).2
      (frame .vertical).2).places o 0 = frame o := by
  have hlt := hroot.nonempty
  have hview := List.getElem?_eq_getElem hlt
  have hid : ref.views[0].isContentFrame = true := decide_eq_true (hroot.root_id _ hview)
  rw [App.places, App.edgeAt, App.edgeAt, framed, App.views_ofViews, List.getElem?_map, hview,
    Option.map_some, if_pos hid]
  cases o <;> rfl

omit [IsStrictOrderedRing K] in
theorem fills_of_layoutIn (hroot : ref.Rooted) (h : ∀ o, Ready printed ref o (ranks o))
    (hcheck : ∀ query, (check query).Right query)
    (hlayout : layoutIn check printed ref frame = some (.success, laid)) :
    Fills K ref frame laid.places := by
  obtain ⟨⟨status, first⟩, hfirst, hsecond⟩ := Option.bind_eq_some_iff.mp hlayout
  have hlen := length_framed ref (frame .horizontal).1 (frame .vertical).1 (frame .horizontal).2
    (frame .vertical).2
  have hstatus : status = .success := by
    by_contra hfailed
    rw [if_pos hfailed] at hsecond
    exact hfailed (congrArg Prod.fst (Option.some.inj hsecond))
  subst hstatus
  rw [if_neg (by simp)] at hsecond
  obtain ⟨hlength, hlaid, hframe, hother⟩ := layoutOrientation_laidOut (h .horizontal)
    (hlen ▸ hroot.nonempty) hlen hcheck hfirst
  have hlen' := hlength.trans hlen
  obtain ⟨_, hlaid', hframe', hother'⟩ := layoutOrientation_laidOut (h .vertical)
    (hlen' ▸ hroot.nonempty) hlen' hcheck hsecond
  intro o
  cases o with
  | horizontal =>
    have hkept := hother' .horizontal (by decide)
    refine ⟨laidOut_congr (h .horizontal).formed hlaid fun p hlt => hkept p (hlen' ▸ hlt), ?_⟩
    rw [hkept 0 (hlen' ▸ hroot.nonempty), hframe, places_framed hroot]
  | vertical =>
    refine ⟨hlaid', ?_⟩
    rw [hframe', hother .vertical (by decide) 0 (hlen ▸ hroot.nonempty), places_framed hroot]

theorem exists_layoutIn (hroot : ref.Rooted) (h : ∀ o, Ready printed ref o (ranks o))
    (hcheck : ∀ query, (check query).Right query) (hdecides : ∀ query, check query ≠ .unknown)
    (hcount : ref.views.length ≤ 1000) {pos : Orientation → Nat → Int × Int}
    (hpos : Fills K ref frame pos) (hfits : ∀ o, ∀ p < ref.views.length, FitsInt (pos o p)) :
    ∃ laid, layoutIn check printed ref frame = some (.success, laid) ∧
      ∀ o, ∀ p < ref.views.length, laid.places o p = pos o p := by
  have hlen := length_framed ref (frame .horizontal).1 (frame .vertical).1 (frame .horizontal).2
    (frame .vertical).2
  obtain ⟨first, hfirst⟩ := exists_layoutOrientation (h .horizontal) (hlen ▸ hroot.nonempty) hlen
    (hlen ▸ hcount) hcheck hdecides (hpos .horizontal).1
    ((hpos .horizontal).2.trans (places_framed hroot .horizontal).symm)
    (fun p hlt => hfits .horizontal p (hlen ▸ hlt))
  obtain ⟨hlength, _, _, hother⟩ := layoutOrientation_laidOut (h .horizontal)
    (hlen ▸ hroot.nonempty) hlen hcheck hfirst
  have hlen' := hlength.trans hlen
  have hframe : pos .vertical 0 = first.places .vertical 0 := by
    rw [(hpos .vertical).2, hother .vertical (by decide) 0 (hlen ▸ hroot.nonempty),
      places_framed hroot]
  obtain ⟨laid, hlaid⟩ := exists_layoutOrientation (h .vertical) (hlen' ▸ hroot.nonempty) hlen'
    (hlen' ▸ hcount) hcheck hdecides (hpos .vertical).1 hframe
    (fun p hlt => hfits .vertical p (hlen' ▸ hlt))
  have hlayout : layoutIn check printed ref frame = some (.success, laid) := by
    rw [layoutIn, layout, hfirst, Option.bind_some, if_neg (by simp)]
    exact hlaid
  refine ⟨laid, hlayout, fun o p hlt => ?_⟩
  obtain ⟨hplaced, hsame⟩ := fills_of_layoutIn hroot h hcheck hlayout o
  exact (h o).formed.unique hplaced (hpos o).1 (hsame.trans (hpos o).2.symm) hlt

/-! ### A view centered in the root, and one below it -/

omit [Field K] [LinearOrder K] [FloorRing K] [IsStrictOrderedRing K] in
theorem sampleCentered_rooted : sampleCentered.Rooted := App.rooted_ofViews rfl (by decide)

theorem sampleCentered_ready (o : Orientation) : Ready (id : ℚ → ℚ) sampleCentered o id where
  formed := by
    intro p hp hlt
    rcases sampleCentered_cases hp hlt with rfl | rfl
    · cases o <;> exact ⟨_, rfl, ⟨rfl, rfl, by decide, by decide, fun _ => ⟨0, by decide, rfl⟩⟩,
        by decide⟩
    · cases o <;> exact ⟨_, rfl, ⟨rfl, rfl, by decide, fun _ => ⟨rfl, rfl⟩,
        fun h => absurd h (by decide)⟩, by decide⟩
  valid := sampleCentered_allValid o
  size := by
    intro view hview
    revert view
    cases o <;> decide
  printed := by
    intro p _ attr _
    exact (Rat.cast_id _).symm

/-- On a root of size 200 the views keep their margins, and the second one its size. -/
def samplePlaces : Orientation → Nat → Int × Int
  | _, 0 => (0, 200)
  | .horizontal, 1 => (10, 190)
  | .vertical, 1 => (20, 180)
  | .horizontal, _ => (10, 40)
  | .vertical, _ => (185, 195)

/-! ### The result -/

/-- `Layout` is exact. A success gives places at which all attributes hold, in the frame that was
asked for. And where there are such places, a solver that decides its queries finds them. -/
theorem layout_exact (hroot : ref.Rooted) (h : ∀ o, Ready printed ref o (ranks o))
    (hcheck : ∀ query, (check query).Right query) (frame : Orientation → Int × Int) :
    (∀ laid, layoutIn check printed ref frame = some (.success, laid) →
      Fills K ref frame laid.places) ∧
    ((∀ query, check query ≠ .unknown) → ref.views.length ≤ 1000 → ∀ pos, Fills K ref frame pos →
      (∀ o, ∀ p < ref.views.length, FitsInt (pos o p)) →
      ∃ laid, layoutIn check printed ref frame = some (.success, laid) ∧
        ∀ o, ∀ p < ref.views.length, laid.places o p = pos o p) :=
  ⟨fun _ hlayout => fills_of_layoutIn hroot h hcheck hlayout,
    fun hdecides hcount _ hpos hfits => exists_layoutIn hroot h hcheck hdecides hcount hpos hfits⟩

theorem layout_exact_sampleCentered :
    ∃ laid, layoutIn CheckResult.ideal id sampleCentered (fun _ => (0, 200)) =
        some (.success, laid) ∧
      [1, 2].map (laid.places .horizontal) = [(10, 190), (10, 40)] ∧
      [1, 2].map (laid.places .vertical) = [(20, 180), (185, 195)] := by
  have hfills : Fills ℚ sampleCentered (fun _ => (0, 200)) samplePlaces := by
    intro o
    refine ⟨fun p hp hlt => ?_, rfl⟩
    rcases sampleCentered_cases hp hlt with rfl | rfl
    · cases o <;> exact ⟨_, rfl, by decide +kernel, by decide +kernel⟩
    · cases o <;> exact ⟨_, rfl, by decide +kernel, by decide +kernel⟩
  have hfits : ∀ o, ∀ p < sampleCentered.views.length, FitsInt (samplePlaces o p) := by
    intro o p hlt
    rcases Nat.eq_zero_or_pos p with rfl | hpos
    · cases o <;> decide
    · rcases sampleCentered_cases hpos.ne' hlt with rfl | rfl <;> cases o <;> decide
  obtain ⟨laid, hlaid, hplaces⟩ := (layout_exact sampleCentered_rooted sampleCentered_ready
    CheckResult.ideal_right fun _ => (0, 200)).2 CheckResult.ideal_decides (by decide) samplePlaces
    hfills hfits
  have hmap (o : Orientation) :
      [1, 2].map (laid.places o) = [1, 2].map (samplePlaces o) := by
    apply List.map_congr_left
    intro p hp
    apply hplaces o p
    rcases List.mem_pair.mp hp with rfl | rfl <;> decide
  exact ⟨laid, hlaid, hmap .horizontal, hmap .vertical⟩

end

end GivenLayout

/-! ## Layouts that were synthesized -/

section
variable {app layout : App Prob} {o : Orientation}

theorem App.SameViews.rooted (h : layout.SameViews app) (hroot : app.Rooted) : layout.Rooted :=
  hroot.of_ids h.length fun p => h.elim (-1) (fun _ => rfl) p

variable [Field K] [LinearOrder K] [FloorRing K] [IsStrictOrderedRing K]
variable [Zero Prob] [LinearOrder Prob] {model : ProbModel Prob} {sort : StdSort Prob}
variable {printed : Prob → K} {printedBias : ℚ → K} {opt : Bool}

/-- What a pass writes can be laid out: its attributes are candidates of the generator that the
cache allows, and each bias is one half. -/
theorem PassedBy.ready {robust : Bool} {hroot : app.Rooted} {deviceApps : List (App Prob)}
    {cores : List (List Nat)} {v : Assignment K} {result : Layouts Prob}
    (h : PassedBy printed robust opt (.ofModel model sort app hroot o) deviceApps cores v result)
    (hsize : ∀ view ∈ app.views, 0 ≤ view.size o) (hhalf : printedBias (1 / 2) = 1 / 2) :
    GivenLayout.Ready printedBias result.app o fun p => (v.anchor (uniqueId p o)).toNat where
  formed := h.written.formed h.model
  valid := by
    intro p hp hlt
    rw [h.written.views.length] at hlt ⊢
    rw [h.written.views.convertViews_eq]
    obtain ⟨attr, hchosen, hattr, _⟩ := h.written.exists_chosen h.model hp hlt
    have horigin := MultiDevice.run_origin printed deviceApps false robust
      (.ofModel model sort app hroot o) cores
    obtain ⟨hcandidate, hallowed⟩ := horigin.allowed hp hchosen.mem
    have hvalid := valid_of_allowed hroot hp hlt hcandidate hallowed
    exact ⟨_, hattr, hvalid.orientation, hvalid.valid, hvalid.relational, hvalid.center,
      hvalid.primary, hvalid.secondary⟩
  size := by
    intro view hview
    have hsizes : result.app.views.map (·.size o) = app.views.map (·.size o) :=
      h.written.views.map fun _ => by cases o <;> rfl
    have hmem : view.size o ∈ app.views.map (·.size o) :=
      hsizes ▸ List.mem_map.mpr ⟨view, hview, rfl⟩
    obtain ⟨old, hold, hsame⟩ := List.mem_map.mp hmem
    exact hsame ▸ hsize old hold
  printed := by
    intro p hp attr hattr
    have hlt := App.lt_of_getAttribute hattr
    rw [h.written.views.length] at hlt
    obtain ⟨chosen, _, hwritten, _⟩ := h.written.exists_chosen h.model hp hlt
    obtain rfl := Option.some.inj (hwritten.symm.trans hattr)
    have hposition := (models_multiDevice.mp h.model).1
    obtain ⟨_, _, hbias⟩ :=
      models_addPositionConstraints.mp hposition p _ (List.getElem?_eq_getElem hlt)
    rw [if_pos rfl] at hbias
    have hwrittenHalf : (findView (convertViews app o 0) p).getBias v = 1 / 2 := by
      apply getBias_half
      rw [Z3View.bias, findView_uniqueId hlt]
      exact hbias
    change printedBias ((findView (convertViews app o 0) p).getBias v) =
      (((findView (convertViews app o 0) p).getBias v : ℚ) : K)
    rw [hwrittenHalf, hhalf]
    norm_num

/-- Laid out in the frame of the reference or of a device, what multi-device synthesis has written
can only give the places the views have there, and a solver that decides its queries finds them. -/
theorem synthesizeLayoutMultiDeviceProb_relayout {env : Orientation → Environment K}
    {resizable : Orientation → Bool} {refDevice : Device} {devices : List Device}
    {check : List (Expr K) → CheckResult K} (hroot : app.Rooted)
    (hsize : ∀ view ∈ app.views, ∀ o, 0 ≤ view.size o)
    (hvertical : (env .vertical).Correct printed (devices.map (resizeApp resizable app refDevice))
      false (!devices.isEmpty) opt (.ofModel model sort app hroot .vertical))
    (hhorizontal : (env .horizontal).Correct printed (synthesizeMultiDeviceProb printed
        (env .vertical) false (!devices.isEmpty) (.ofModel model sort app hroot .vertical)
        ⟨app, devices.map (resizeApp resizable app refDevice)⟩).2.deviceApps
      false (!devices.isEmpty) opt (.ofModel model sort app hroot .horizontal))
    (hcheck : ∀ query, (check query).Right query) (hhalf : printedBias (1 / 2) = 1 / 2) :
    let result := synthesizeLayoutMultiDeviceProb printed env
      (fun o => .ofModel model sort app hroot o) resizable refDevice devices
    (∀ o v, (env o).finalAnswer = .sat v → ∀ p attr, result.2.app.getAttribute o p = some attr →
      SmallMargins attr.type (findView (convertViews app o 0) p) v) →
    result.1 = .success → ∀ screen, screen = result.2.app ∨ screen ∈ result.2.deviceApps →
      let relayout := GivenLayout.layoutIn check printedBias result.2.app fun o => screen.places o 0
      (∀ laid, relayout = some (.success, laid) →
        ∀ o, ∀ p < app.views.length, laid.places o p = screen.places o p) ∧
      ((∀ query, check query ≠ .unknown) → app.views.length ≤ 1000 →
        (∀ o, ∀ p < app.views.length, GivenLayout.FitsInt (screen.places o p)) →
        ∃ laid, relayout = some (.success, laid)) := by
  intro result hsmall hsuccess screen hscreen relayout
  have hpassed := exists_passedBy hvertical hhorizontal hsmall hsuccess
  choose deviceApps cores v hpass using hpassed
  have hviews := (hpass .vertical).written.views
  have hready (o : Orientation) : GivenLayout.Ready printedBias result.2.app o
      fun p => (v o |>.anchor (uniqueId p o)).toNat :=
    (hpass o).ready (fun view hview => hsize view hview o) hhalf
  have hfills : GivenLayout.Fills K result.2.app (fun o => screen.places o 0) screen.places := by
    intro o
    have hpredicted := (hpass o).written.predicted (fun view hview => hsize view hview o)
      (hpass o).model (hpass o).screens
    rcases hscreen with rfl | hdevice
    · exact ⟨hpredicted.reference, rfl⟩
    · exact ⟨hpredicted.devices screen hdevice, rfl⟩
  have hrooted := hviews.rooted hroot
  constructor
  · intro laid hlaid o p hlt
    obtain ⟨hplaced, hframe⟩ := GivenLayout.fills_of_layoutIn hrooted hready hcheck hlaid o
    exact (hready o).formed.unique hplaced (hfills o).1 hframe (hviews.length ▸ hlt)
  · intro hdecides hcount hfits
    obtain ⟨laid, hlaid, _⟩ := GivenLayout.exists_layoutIn hrooted hready hcheck hdecides
      (hviews.length ▸ hcount) hfills (fun o p hlt => hfits o p (hviews.length ▸ hlt))
    exact ⟨laid, hlaid⟩

end

theorem synthesizeLayoutMultiDeviceProb_relayout_inset :
    let result := synthesizeLayoutMultiDeviceProb id insetEnvironment insetCache (fun _ => true)
      ⟨100, 100⟩ [largeScreen]
    result.2.deviceApps.length = 1 ∧
      ∀ screen ∈ result.2.deviceApps, ∃ laid, GivenLayout.layoutIn CheckResult.ideal (id : ℚ → ℚ)
          result.2.app (fun o => screen.places o 0) = some (.success, laid) ∧
        ∀ o, ∀ p < 2, laid.places o p = screen.places o p := by
  intro result
  refine ⟨rfl, fun screen hscreen => ?_⟩
  have hsuccess : result.1 = .success := rfl
  have hsize : ∀ view ∈ insetApp.views, ∀ o, 0 ≤ view.size o := by
    intro view hview o
    revert view
    cases o <;> decide
  have hsmall : ∀ o v, (insetEnvironment o).finalAnswer = .sat v → ∀ p (attr : Attribute ℚ),
      result.2.app.getAttribute o p = some attr →
      SmallMargins attr.type (findView (convertViews insetApp o 0) p) v := by
    intro o v hanswer p attr _
    obtain rfl : insetModel o = v := CheckResult.sat.inj hanswer
    exact ⟨fun _ => inset_small o, fun _ => inset_small o⟩
  have hfits : ∀ o, ∀ p < 2, GivenLayout.FitsInt (screen.places o p) := by
    have hall : ∀ screen ∈ result.2.deviceApps, ∀ p < 2,
        GivenLayout.FitsInt (screen.places .horizontal p) ∧
          GivenLayout.FitsInt (screen.places .vertical p) := by decide +kernel
    intro o p hlt
    cases o with
    | horizontal => exact (hall screen hscreen p hlt).1
    | vertical => exact (hall screen hscreen p hlt).2
  have hhalf : (id : ℚ → ℚ) (1 / 2) = 1 / 2 := rfl
  have hlayout := synthesizeLayoutMultiDeviceProb_relayout insetApp_rooted hsize
    insetEnvironment_vertical insetEnvironment_horizontal CheckResult.ideal_right hhalf hsmall
    hsuccess screen (.inr hscreen)
  obtain ⟨laid, hlaid⟩ := hlayout.2 CheckResult.ideal_decides (by decide) hfits
  exact ⟨laid, hlaid, hlayout.1 laid hlaid⟩

end InferUI
