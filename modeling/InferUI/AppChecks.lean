import InferUI.Robustness

/-!
# Checking the look of an app

`AppProperties` of `z3inference.h`: each check gives the coordinates of two apps to a solver and
asks what robust synthesis asserts. The positions are all given, so a check only evaluates.
-/

namespace InferUI
open Store
variable {Prob K L : Type}

/-- The coordinate of an edge of view `p`. -/
def App.edgeAt (app : App Prob) (o : Orientation) (p : Nat) (s : Side) : Int :=
  (app.views[p]?).elim 0 fun view => view.edge o s

/-- Twice the middle of view `p`. -/
def App.middleAt (app : App Prob) (o : Orientation) (p : Nat) : Int :=
  app.edgeAt o p .start + app.edgeAt o p .end

/-! ## The checks -/

def genBoundConditions (views : List Z3View) : List (Expr K) :=
  let root := findView views 0
  (nonRoot views).flatMap fun view =>
    [fun v => decide (view.positionStart v ≥ root.positionStart v),
      fun v => decide (view.positionEnd v ≤ root.positionEnd v)]

def boundsQuery (app : App Prob) (o : Orientation) : List (Expr ℚ) :=
  assertPositions (convertViews app o 0) ++ genBoundConditions (convertViews app o 0)

def checkBounds (app : App Prob) : Prop :=
  Sat (boundsQuery app .horizontal) ∧ Sat (boundsQuery app .vertical)

/-- The query of a check that compares an app with its reference. -/
def keepsQuery (assertKeeps : List Z3View → List Z3View → List (Expr ℚ)) (ref app : App Prob)
    (o : Orientation) : List (Expr ℚ) :=
  let refViews := convertViews ref o 0
  let appViews := convertViews app o 1
  assertPositions refViews ++ assertPositions appViews ++ assertKeeps refViews appViews

def checkCentering (ref app : App Prob) : Prop :=
  Sat (keepsQuery (assertKeepsCentering ref) ref app .horizontal) ∧
    Sat (keepsQuery (assertKeepsCentering ref) ref app .vertical)

def checkMargins (ref app : App Prob) : Prop :=
  Sat (keepsQuery (assertKeepsMargins ref) ref app .horizontal) ∧
    Sat (keepsQuery (assertKeepsMargins ref) ref app .vertical)

def checkSizeRatio (ref app : App Prob) : Prop :=
  Sat (keepsQuery (fun refViews appViews => assertKeepsSizeRatio ref refViews appViews app) ref app
    .horizontal)

/-- `(double)a / b > 2.0`: a quotient by zero is infinite, or no number. -/
def quotientExceeds (a b : Int) : Bool :=
  if b = 0 then decide (0 < a) else decide (2 < (a : ℚ) / b)

/-- The larger of the two quotients is above 2. If one of them is no number, so is the other. -/
def resizedTooMuch (a b : Int) : Bool := quotientExceeds a b || quotientExceeds b a

/-- `CheckAllProperties`, for two apps with equally many views; a `CHECK_EQ` stops it before it
reports that there are not. -/
def checkAllProperties (ref app : App Prob) : Prop :=
  (checkBounds ref ∧ checkBounds app) ∧ checkIntersection ref app ∧ checkCentering ref app ∧
    checkMargins ref app ∧ checkSizeRatio ref app ∧
    ∀ (i : Nat) (view view' : View Prob), app.views[i]? = some view → ref.views[i]? = some view' →
      resizedTooMuch view.width view'.width = false ∧
        resizedTooMuch view.height view'.height = false

/-! ## What the solver is asked -/

/-- The edges of the first `n` views have the same values. -/
def SameEdges (n : Nat) (views : List Z3View) (v : Assignment K) (views' : List Z3View)
    (w : Assignment L) : Prop :=
  ∀ p < n, ∀ s, (findView views p).edge s v = (findView views' p).edge s w

theorem models_flatMap_congr {α V W : Type} {xs : List α} {f : α → List (V → Bool)}
    {g : α → List (W → Bool)} {v : V} {w : W} (h : ∀ x ∈ xs, Models (f x) v ↔ Models (g x) w) :
    Models (xs.flatMap f) v ↔ Models (xs.flatMap g) w := by
  rw [models_flatMap, models_flatMap]
  exact forall₂_congr h

section
variable {ref app : App Prob} {o : Orientation} {d : Nat}

theorem edgeAt_eq {p : Nat} {view : View Prob} (h : app.views[p]? = some view) (s : Side) :
    app.edgeAt o p s = view.edge o s := by
  rw [App.edgeAt, h, Option.elim_some]

theorem coordinate_eq_edgeAt {p : Nat} (hlt : p < app.views.length) (s : Side) :
    (findView (convertViews app o d) p).coordinate s = app.edgeAt o p s := by
  have h := List.getElem?_eq_getElem hlt
  rw [coordinate_findView h, edgeAt_eq h]

/-- The positions that are asserted are the coordinates. -/
theorem edge_of_assertPositions {v : Assignment K}
    (h : Models (assertPositions (convertViews app o d)) v) {p : Nat} (hlt : p < app.views.length)
    (s : Side) : (findView (convertViews app o d) p).edge s v = app.edgeAt o p s := by
  have hview := List.getElem?_eq_getElem hlt
  rw [models_assertPositions.mp h p _ hview s, edgeAt_eq hview]

variable {appViews appViews' : List Z3View} {v : Assignment K} {w : Assignment L}

theorem assertKeepsIntersection_congr
    (h : SameEdges ref.views.length appViews v appViews' w) :
    Models (assertKeepsIntersection ref (convertViews ref o 0) appViews) v ↔
      Models (assertKeepsIntersection ref (convertViews ref o 0) appViews') w := by
  rw [models_assertKeepsIntersection, models_assertKeepsIntersection]
  apply forall_congr'
  intro i
  apply forall_congr'
  intro j
  apply forall₃_congr
  intro _ hij hj
  apply forall₂_congr
  intro _ _
  rw [KeepsOrder, KeepsOrder]
  apply forall₂_congr
  intro s e
  rw [h i (hij.trans hj) s, h j hj e]

theorem assertKeepsMargins_congr
    (href : SameEdges ref.views.length (convertViews ref o 0) v (convertViews ref o 0) w)
    (h : SameEdges ref.views.length appViews v appViews' w) :
    Models (assertKeepsMargins ref (convertViews ref o 0) appViews) v ↔
      Models (assertKeepsMargins ref (convertViews ref o 0) appViews') w := by
  rw [assertKeepsMargins, assertKeepsMargins, length_convertViews]
  apply models_flatMap_congr
  intro i hi
  apply models_flatMap_congr
  intro j hj
  obtain ⟨_, hi⟩ := mem_loop.mp hi
  obtain ⟨_, hj⟩ := mem_loop.mp hj
  have hlt := hj.trans hi
  have hkeep (s e : Side) := congrArg₂ (· = ·)
    (congrArg₂ (· - ·) (href i hi s) (href j hlt e)) (congrArg₂ (· - ·) (h i hi s) (h j hlt e))
  dsimp only at hkeep ⊢
  split
  · simp only [models_nil]
  · split
    · simp only [models_nil]
    · split
      · simp only [models_cons, decide_eq_true_eq, hkeep, models_nil]
      · split
        · simp only [models_cons, decide_eq_true_eq, hkeep, models_nil]
        · split <;> simp only [models_cons, decide_eq_true_eq, hkeep, models_nil]

theorem assertKeepsSizeRatio_congr (h : SameEdges ref.views.length appViews v appViews' w)
    {app' : App Prob}
    (hheight : ∀ i < ref.views.length, (app.views[i]?).elim 0 (·.height) =
      (app'.views[i]?).elim 0 (·.height)) :
    Models (assertKeepsSizeRatio ref (convertViews ref o 0) appViews app) v ↔
      Models (assertKeepsSizeRatio ref (convertViews ref o 0) appViews' app') w := by
  rw [assertKeepsSizeRatio, assertKeepsSizeRatio, length_convertViews]
  apply models_flatMap_congr
  intro i hi
  obtain ⟨_, hi⟩ := mem_loop.mp hi
  have hstart := h i hi .start
  have hend := h i hi .end
  simp only [Z3View.edge] at hstart hend
  dsimp only
  split
  · simp only [models_nil]
  · cases ratiosFrac.find? _ with
    | none => simp only [Option.elim_none, models_nil]
    | some ratio =>
      simp only [Option.elim_some, models_cons, hstart, hend, hheight i hi, models_nil]

/-! ## Centers -/

/-- The views that `AssertKeepsCentering` finds centered in the reference are centered for other
edges. -/
structure CentersKept (ref : App Prob) (o : Orientation) (edge : Nat → Side → Int) : Prop where
  root : ∀ i, i ≠ 0 → i < ref.views.length → ref.middleAt o i = ref.middleAt o 0 →
    edge i .start + edge i .end = edge 0 .start + edge 0 .end
  pair : ∀ i l, i ≠ 0 → i < l → l < ref.views.length →
    ¬ ((findView (convertViews ref o 0) i).hasFixedPosition = true ∧
      (findView (convertViews ref o 0) l).hasFixedPosition = true) →
    ref.middleAt o i = ref.middleAt o l → edge i .start + edge i .end = edge l .start + edge l .end
  between : ∀ i l r, i ≠ 0 → i < ref.views.length → i ≠ l → l < r → r < ref.views.length → i ≠ r →
    ref.numIntersections i l = 0 → ref.numIntersections i r = 0 →
    if ref.middleAt o i = ref.edgeAt o l .start + ref.edgeAt o r .end then
      edge i .start + edge i .end = edge l .start + edge r .end
    else ref.middleAt o i = ref.edgeAt o l .end + ref.edgeAt o r .start →
      edge i .start + edge i .end = edge l .end + edge r .start

theorem models_assertMiddle {src l r : Z3View} {s e : Side} :
    Models [assertMiddle src l r s e] v ↔
      src.edge .start v + src.edge .end v = l.edge s v + r.edge e v := by
  rw [models_cons, assertMiddle, decide_eq_true_eq, and_iff_left (models_nil v)]
  rfl

/-- What is asserted of a view between two others. -/
theorem models_between {i l r : Nat} (hi : i < ref.views.length) (hl : l < ref.views.length)
    (hr : r < ref.views.length) :
    let refViews := convertViews ref o 0
    Models (if (findView refViews i).start + (findView refViews i).end =
          (findView refViews l).start + (findView refViews r).end then
        [assertMiddle (findView appViews i) (findView appViews l) (findView appViews r) .start .end]
      else if (findView refViews i).start + (findView refViews i).end =
          (findView refViews l).end + (findView refViews r).start then
        [assertMiddle (findView appViews i) (findView appViews l) (findView appViews r) .end .start]
      else []) v ↔
    let edge p s := (findView appViews p).edge s v
    if ref.middleAt o i = ref.edgeAt o l .start + ref.edgeAt o r .end then
      edge i .start + edge i .end = edge l .start + edge r .end
    else ref.middleAt o i = ref.edgeAt o l .end + ref.edgeAt o r .start →
      edge i .start + edge i .end = edge l .end + edge r .start := by
  have hstart {p : Nat} (hlt : p < ref.views.length) :
      (findView (convertViews ref o 0) p).start = ref.edgeAt o p .start :=
    coordinate_eq_edgeAt hlt .start
  have hend {p : Nat} (hlt : p < ref.views.length) :
      (findView (convertViews ref o 0) p).end = ref.edgeAt o p .end :=
    coordinate_eq_edgeAt hlt .end
  dsimp only
  rw [hstart hi, hend hi, hstart hl, hend hl, hstart hr, hend hr, ← App.middleAt]
  split
  · exact models_assertMiddle
  · split
    · rename_i heq
      rw [models_assertMiddle, forall_prop_of_true heq]
    · rename_i hne
      simp only [models_nil, hne, false_imp_iff]

theorem models_assertKeepsCentering :
    Models (assertKeepsCentering ref (convertViews ref o 0) appViews) v ↔
      CentersKept ref o fun p s => (findView appViews p).edge s v := by
  have hmiddle {p : Nat} (hlt : p < ref.views.length) :
      (findView (convertViews ref o 0) p).start + (findView (convertViews ref o 0) p).end =
        ref.middleAt o p :=
    congrArg₂ (· + ·) (coordinate_eq_edgeAt hlt .start) (coordinate_eq_edgeAt hlt .end)
  rw [assertKeepsCentering, length_convertViews, models_flatMap]
  simp only [models_append]
  constructor
  · intro h
    refine ⟨?_, ?_, ?_⟩
    · intro i hi hlt heq
      have hroot := (h i (mem_loop.mpr ⟨by omega, hlt⟩)).1.1
      rw [hmiddle hlt, hmiddle (by omega : 0 < ref.views.length), if_pos heq] at hroot
      exact models_assertMiddle.mp hroot
    · intro i l hi hil hl hfree heq
      have hpairs := (h i (mem_loop.mpr ⟨by omega, hil.trans hl⟩)).1.2
      have hpair := models_flatMap.mp hpairs l (mem_loop.mpr ⟨hil, hl⟩)
      rw [if_neg (by simpa using hfree), hmiddle (hil.trans hl), hmiddle hl, if_pos heq] at hpair
      exact models_assertMiddle.mp hpair
    · intro i l r hi hlt hil hlr hr hir hnone hnone'
      have hall := (h i (mem_loop.mpr ⟨by omega, hlt⟩)).2
      have hleft := models_flatMap.mp hall l (mem_loop.mpr ⟨by omega, hlr.trans hr⟩)
      rw [if_neg hil] at hleft
      have hright := models_flatMap.mp hleft r (mem_loop.mpr ⟨hlr, hr⟩)
      rw [if_neg hir, if_neg (by omega)] at hright
      exact (models_between hlt (hlr.trans hr) hr).mp hright
  · intro h i hi
    obtain ⟨hi, hlt⟩ := mem_loop.mp hi
    refine ⟨⟨?_, ?_⟩, ?_⟩
    · rw [hmiddle hlt, hmiddle (by omega : 0 < ref.views.length)]
      split
      · rename_i heq
        exact models_assertMiddle.mpr (h.root i (by omega) hlt heq)
      · exact models_nil v
    · rw [models_flatMap]
      intro l hl
      obtain ⟨hil, hl⟩ := mem_loop.mp hl
      rw [hmiddle hlt, hmiddle hl]
      split
      · exact models_nil v
      · rename_i hfree
        split
        · rename_i heq
          exact models_assertMiddle.mpr
            (h.pair i l (by omega) hil hl (by simpa using hfree) heq)
        · exact models_nil v
    · rw [models_flatMap]
      intro l hl
      obtain ⟨_, hl⟩ := mem_loop.mp hl
      split
      · exact models_nil v
      · rename_i hil
        rw [models_flatMap]
        intro r hr
        obtain ⟨hlr, hr⟩ := mem_loop.mp hr
        split
        · exact models_nil v
        · rename_i hir
          split
          · exact models_nil v
          · exact (models_between hlt hl hr).mpr
              (h.between i l r (by omega) hlt hil hlr hr hir (by omega) (by omega))

theorem CentersKept.congr {edge edge' : Nat → Side → Int} (h : CentersKept ref o edge)
    (hedge : ∀ p < ref.views.length, ∀ s, edge p s = edge' p s) : CentersKept ref o edge' where
  root i hi hlt heq := by
    have h0 : 0 < ref.views.length := by omega
    rw [← hedge i hlt, ← hedge i hlt, ← hedge 0 h0, ← hedge 0 h0]
    exact h.root i hi hlt heq
  pair i l hi hil hl hfree heq := by
    have hlt := hil.trans hl
    rw [← hedge i hlt, ← hedge i hlt, ← hedge l hl, ← hedge l hl]
    exact h.pair i l hi hil hl hfree heq
  between i l r hi hlt hil hlr hr hir hnone hnone' := by
    have hl := hlr.trans hr
    rw [← hedge i hlt, ← hedge i hlt, ← hedge l hl, ← hedge l hl, ← hedge r hr, ← hedge r hr]
    exact h.between i l r hi hlt hil hlr hr hir hnone hnone'

/-! ## The checks evaluate -/

/-- The model that the positions of a query describe. -/
theorem positionsModel_keeps (ref app : App Prob) (o : Orientation) :
    Models (assertPositions (convertViews ref o 0)) (positionsModel ref app o) ∧
      Models (assertPositions (convertViews app o 1)) (positionsModel ref app o) :=
  ⟨positionsModel_positions ref app o 0, positionsModel_positions ref app o 1⟩

theorem sat_keepsCentering (hlength : app.views.length = ref.views.length) :
    Sat (keepsQuery (assertKeepsCentering ref) ref app o) ↔ CentersKept ref o (app.edgeAt o) := by
  have hedge {v : Assignment ℚ} (h : Models (assertPositions (convertViews app o 1)) v) (p : Nat)
      (hlt : p < ref.views.length) (s : Side) :=
    edge_of_assertPositions h (hlength ▸ hlt) s
  constructor
  · rintro ⟨v, hv⟩
    rw [keepsQuery, models_append, models_append, models_assertKeepsCentering] at hv
    exact hv.2.congr (hedge hv.1.2)
  · intro h
    obtain ⟨href, happ⟩ := positionsModel_keeps ref app o
    refine ⟨positionsModel ref app o, ?_⟩
    rw [keepsQuery, models_append, models_append, models_assertKeepsCentering]
    exact ⟨⟨href, happ⟩, h.congr fun p hlt s => (hedge happ p hlt s).symm⟩

theorem models_genBoundConditions :
    Models (genBoundConditions (convertViews app o d)) v ↔
      ∀ p, p ≠ 0 → p < app.views.length →
        let root := findView (convertViews app o d) 0
        let view := findView (convertViews app o d) p
        root.positionStart v ≤ view.positionStart v ∧ view.positionEnd v ≤ root.positionEnd v := by
  rw [genBoundConditions, models_flatMap, forall_nonRoot]
  simp only [models_cons, ge_iff_le, decide_eq_true_eq, models_nil, and_true]

/-- The views lie inside the root along one orientation. -/
def App.InsideAlong (app : App Prob) (o : Orientation) : Prop :=
  ∀ p, p ≠ 0 → p < app.views.length →
    app.edgeAt o 0 .start ≤ app.edgeAt o p .start ∧ app.edgeAt o p .end ≤ app.edgeAt o 0 .end

theorem sat_boundsQuery : Sat (boundsQuery app o) ↔ app.InsideAlong o := by
  have hbounds {v : Assignment ℚ} (h : Models (assertPositions (convertViews app o 0)) v) :
      Models (genBoundConditions (convertViews app o 0)) v ↔ app.InsideAlong o := by
    rw [models_genBoundConditions, App.InsideAlong]
    apply forall₃_congr
    intro p _ hlt
    have h0 : 0 < app.views.length := by omega
    have hstart := edge_of_assertPositions h hlt .start
    have hend := edge_of_assertPositions h hlt .end
    have hstart' := edge_of_assertPositions h h0 .start
    have hend' := edge_of_assertPositions h h0 .end
    simp only [Z3View.edge] at hstart hend hstart' hend'
    dsimp only
    rw [hstart, hend, hstart', hend']
  constructor
  · rintro ⟨v, hv⟩
    rw [boundsQuery, models_append] at hv
    exact (hbounds hv.1).mp hv.2
  · intro h
    have hpositions := (positionsModel_keeps app app o).1
    exact ⟨positionsModel app app o, models_append.mpr ⟨hpositions, (hbounds hpositions).mpr h⟩⟩

theorem insideRoot_iff :
    app.InsideRoot ↔ app.InsideAlong .horizontal ∧ app.InsideAlong .vertical := by
  constructor
  · intro h
    have halong (o : Orientation) : app.InsideAlong o := by
      intro p _ hlt
      have hroot := List.getElem?_eq_getElem (by omega : 0 < app.views.length)
      have hview := List.getElem?_eq_getElem hlt
      simp only [edgeAt_eq hroot, edgeAt_eq hview]
      exact h _ hroot _ (List.getElem_mem hlt) o
    exact ⟨halong .horizontal, halong .vertical⟩
  · rintro ⟨hhorizontal, hvertical⟩ root hroot view hview o
    have halong : app.InsideAlong o := by cases o <;> assumption
    obtain ⟨p, hp⟩ := List.mem_iff_getElem?.mp hview
    by_cases hzero : p = 0
    · subst hzero
      obtain rfl := Option.some.inj (hroot.symm.trans hp)
      exact ⟨le_rfl, le_rfl⟩
    · have := halong p hzero (List.getElem?_eq_some_iff.mp hp).1
      simpa only [edgeAt_eq hroot, edgeAt_eq hp, View.edge] using this

theorem checkBounds_iff : checkBounds app ↔ app.InsideRoot := by
  rw [checkBounds, sat_boundsQuery, sat_boundsQuery, insideRoot_iff]

end

/-! ## What is accepted -/

/-- A size is kept up to a factor of two, and not compared with one of the other sign. -/
def SizeKept (a b : Int) : Prop :=
  (0 ≤ a → 0 ≤ b → a ≤ 2 * b ∧ b ≤ 2 * a) ∧ (a < 0 → b < 0 → 2 * b ≤ a ∧ 2 * a ≤ b)

theorem quotientExceeds_eq_true {a b : Int} :
    quotientExceeds a b = true ↔ 0 ≤ b ∧ 2 * b < a ∨ b < 0 ∧ a < 2 * b := by
  rw [quotientExceeds]
  split
  · rename_i hzero
    subst hzero
    rw [decide_eq_true_eq]
    omega
  · rename_i hne
    rw [decide_eq_true_eq]
    rcases lt_or_gt_of_ne hne with hneg | hpos
    · have hb : (b : ℚ) < 0 := by exact_mod_cast hneg
      rw [lt_div_iff_of_neg hb]
      have hcast : (a : ℚ) < 2 * b ↔ a < 2 * b := by exact_mod_cast Iff.rfl
      rw [hcast]
      omega
    · have hb : (0 : ℚ) < b := by exact_mod_cast hpos
      rw [lt_div_iff₀ hb]
      have hcast : 2 * (b : ℚ) < a ↔ 2 * b < a := by exact_mod_cast Iff.rfl
      rw [hcast]
      omega

theorem resizedTooMuch_eq_false {a b : Int} : resizedTooMuch a b = false ↔ SizeKept a b := by
  rw [resizedTooMuch, Bool.or_eq_false_iff, ← Bool.not_eq_true, ← Bool.not_eq_true,
    quotientExceeds_eq_true, quotientExceeds_eq_true, SizeKept]
  omega

/-- For a reference with known coordinates the checks accept exactly the apps inside their root
whose views are centered as in the reference and have kept their sizes up to a factor of two.
Nothing is asked of the order of views, of margins or of size ratios. -/
theorem checkAllProperties_iff {ref app : App Prob} (hlength : app.views.length = ref.views.length)
    (hknown : ref.Known) :
    checkAllProperties ref app ↔
      (ref.InsideRoot ∧ app.InsideRoot) ∧ (∀ o, CentersKept ref o (app.edgeAt o)) ∧
        ∀ (i : Nat) (view view' : View Prob), app.views[i]? = some view →
          ref.views[i]? = some view' →
          SizeKept view.width view'.width ∧ SizeKept view.height view'.height := by
  have hmargins (o : Orientation) : Sat (keepsQuery (assertKeepsMargins ref) ref app o) :=
    ⟨positionsModel ref app o, models_append.mpr
      ⟨models_append.mpr (positionsModel_keeps ref app o),
        models_assertKeepsMargins_known hknown _⟩⟩
  have hratio : checkSizeRatio ref app :=
    ⟨positionsModel ref app .horizontal, models_append.mpr
      ⟨models_append.mpr (positionsModel_keeps ref app .horizontal),
        models_assertKeepsSizeRatio_known hknown _ _⟩⟩
  have hintersection := checkIntersection_of_known hlength hknown
  have hcenters : checkCentering ref app ↔ ∀ o, CentersKept ref o (app.edgeAt o) := by
    rw [checkCentering, sat_keepsCentering hlength, sat_keepsCentering hlength]
    constructor
    · rintro ⟨hhorizontal, hvertical⟩ o
      cases o <;> assumption
    · intro h
      exact ⟨h .horizontal, h .vertical⟩
  simp only [checkAllProperties, checkBounds_iff, hcenters, resizedTooMuch_eq_false, hintersection,
    checkMargins, hmargins, hratio, and_self, true_and]

/-- At two views that have changed places. -/
theorem checkAllProperties_iff_swapped :
    checkAllProperties (pairApp 10 20 30 40) (pairApp 30 40 10 20) ↔
      ((pairApp 10 20 30 40).InsideRoot ∧ (pairApp 30 40 10 20).InsideRoot) ∧
      (∀ o, CentersKept (pairApp 10 20 30 40) o ((pairApp 30 40 10 20).edgeAt o)) ∧
        ∀ (i : Nat) (view view' : View ℚ), (pairApp 30 40 10 20).views[i]? = some view →
          (pairApp 10 20 30 40).views[i]? = some view' →
          SizeKept view.width view'.width ∧ SizeKept view.height view'.height :=
  checkAllProperties_iff rfl (pairApp_known (by decide) (by decide))

end InferUI
