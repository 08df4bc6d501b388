import InferUI.Robust

/-!
# The intersection checker

`AppProperties::CheckIntersection` gives the coordinates of two apps to the solver, together with
what `AssertKeepsIntersection` says of them. The solver is taken for a correct oracle.
-/

namespace InferUI
open Store
variable {Prob K : Type}

/-- `AppProperties::AddPositionConstraints`. -/
def assertPositions (views : List Z3View) : List (Expr K) :=
  views.flatMap fun view => view.assertPosition

/-- What `CheckIntersection` asserts for one orientation; no number of the query is a real. -/
def intersectionAssertions (ref app : App Prob) (o : Orientation) : List (Expr ℚ) :=
  let refViews := convertViews ref o 0
  let appViews := convertViews app o 1
  assertPositions refViews ++ assertPositions appViews ++
    assertKeepsIntersection ref refViews appViews

def checkIntersection (ref app : App Prob) : Prop :=
  Sat (intersectionAssertions ref app .horizontal) ∧ Sat (intersectionAssertions ref app .vertical)

/-- The four pairs of edges of two views are ordered in the app as in the reference. -/
def KeepsPair (ref app : App Prob) (o : Orientation) (i j : Nat) : Prop :=
  ∀ src tgt src' tgt', ref.views[i]? = some src → ref.views[j]? = some tgt →
    app.views[i]? = some src' → app.views[j]? = some tgt' →
    ∀ s e, (src'.edge o s - tgt'.edge o e).sign = (src.edge o s - tgt.edge o e).sign

/-- Every unobstructed pair keeps its order. -/
def KeepsEdgeOrder (ref app : App Prob) : Prop :=
  ∀ o i j, i ≠ 0 → i < j → j < ref.views.length → ref.numIntersections i j = 0 →
    KeepsPair ref app o i j

section
variable {ref app : App Prob} {o : Orientation} {d : Nat} {v : Assignment K}

theorem models_assertPositions :
    Models (assertPositions (convertViews app o d)) v ↔
      ∀ p view, app.views[p]? = some view →
        ∀ s, (findView (convertViews app o d) p).edge s v = view.edge o s := by
  rw [assertPositions, models_flatMap, forall_convertViews]
  constructor
  · intro h p view hview s
    have hboth := (models_assertPosition hview).mp (h p (List.getElem?_eq_some_iff.mp hview).1)
    rw [findView_eq hview]
    cases s with
    | start => exact hboth.1
    | «end» => exact hboth.2
  · intro h p hlt
    have hview := List.getElem?_eq_getElem hlt
    have hstart := h p _ hview .start
    have hend := h p _ hview .end
    rw [findView_eq hview] at hstart hend
    exact (models_assertPosition hview).mpr ⟨hstart, hend⟩

/-- The coordinates of the reference under device 0 and of the app under device 1. -/
def positionsModel (ref app : App Prob) (o : Orientation) : Assignment ℚ where
  positionStart u d :=
    ((if d = 0 then ref else app).views[u - 1000 * o.toIndex]?).elim 0 (·.startAt o)
  positionEnd u d := ((if d = 0 then ref else app).views[u - 1000 * o.toIndex]?).elim 0 (·.endAt o)
  marginStart _ := 0
  marginEnd _ := 0
  anchor _ := 0
  bias _ := 1 / 2
  cost _ := 0
  satisfied _ _ := false
  select _ := false

theorem positionsModel_positions (ref app : App Prob) (o : Orientation) (d : Nat) :
    Models (assertPositions (convertViews (if d = 0 then ref else app) o d))
      (positionsModel ref app o) := by
  rw [models_assertPositions]
  intro p view hview s
  rw [findView_eq hview]
  cases s <;> simp only [positionsModel, Z3View.edge, Z3View.positionStart, Z3View.positionEnd,
    Z3View.uniqueId, uniqueId_sub, hview, Option.elim_some, View.edge]

/-- At the coordinates of the app, the order of two views is that of their variables. -/
theorem keepsOrder_iff (hlength : app.views.length = ref.views.length)
    (h : Models (assertPositions (convertViews app o d)) v) {i j : Nat} (hij : i < j)
    (hj : j < ref.views.length) :
    KeepsOrder ref o i j (convertViews app o d) v ↔ KeepsPair ref app o i j := by
  have hposition := models_assertPositions.mp h
  have hi : i < ref.views.length := hij.trans hj
  constructor
  · intro horder src tgt src' tgt' hsrc htgt hsrc' htgt' s e
    have := horder s e
    rwa [hposition i src' hsrc', hposition j tgt' htgt', coordinate_findView hsrc,
      coordinate_findView htgt] at this
  · intro hpair s e
    have hsrc' := List.getElem?_eq_getElem (hlength ▸ hi : i < app.views.length)
    have htgt' := List.getElem?_eq_getElem (hlength ▸ hj : j < app.views.length)
    rw [hposition i _ hsrc', hposition j _ htgt',
      coordinate_findView (List.getElem?_eq_getElem hi),
      coordinate_findView (List.getElem?_eq_getElem hj)]
    exact hpair _ _ _ _ (List.getElem?_eq_getElem hi) (List.getElem?_eq_getElem hj) hsrc' htgt' s e

/-- What is checked of one orientation: the pairs with an unknown coordinate in the reference. -/
theorem sat_intersectionAssertions (hlength : app.views.length = ref.views.length) :
    Sat (intersectionAssertions ref app o) ↔
      ∀ i j, i ≠ 0 → i < j → j < ref.views.length →
        ¬ ((findView (convertViews ref o 0) i).hasFixedPosition = true ∧
          (findView (convertViews ref o 0) j).hasFixedPosition = true) →
        ref.numIntersections i j = 0 → KeepsPair ref app o i j := by
  constructor
  · rintro ⟨v, hv⟩ i j hi hij hj hfree hnone
    simp only [intersectionAssertions, models_append] at hv
    rw [← keepsOrder_iff hlength hv.1.2 hij hj]
    exact models_assertKeepsIntersection.mp hv.2 i j hi hij hj hfree hnone
  · intro h
    have happ := positionsModel_positions ref app o 1
    refine ⟨positionsModel ref app o, ?_⟩
    simp only [intersectionAssertions, models_append]
    refine ⟨⟨positionsModel_positions ref app o 0, happ⟩, ?_⟩
    rw [models_assertKeepsIntersection]
    intro i j hi hij hj hfree hnone
    rw [keepsOrder_iff hlength happ hij hj]
    exact h i j hi hij hj hfree hnone

/-- The guard leaves out every pair when the reference is known, and the check succeeds. -/
theorem checkIntersection_of_known (hlength : app.views.length = ref.views.length)
    (hknown : ref.Known) : checkIntersection ref app := by
  have hsat (o : Orientation) : Sat (intersectionAssertions ref app o) := by
    rw [sat_intersectionAssertions hlength]
    intro i j _ hij hj hfree
    exact absurd ⟨hknown.fixed (hij.trans hj), hknown.fixed hj⟩ hfree
  exact ⟨hsat .horizontal, hsat .vertical⟩

/-- For a reference with known coordinates the check is exact on those apps alone that keep the
order of all unobstructed pairs: it accepts the others as well. -/
theorem checkIntersection_exact_iff (hlength : app.views.length = ref.views.length)
    (hknown : ref.Known) :
    (checkIntersection ref app ↔ KeepsEdgeOrder ref app) ↔ KeepsEdgeOrder ref app := by
  constructor
  · intro hexact
    exact hexact.mp (checkIntersection_of_known hlength hknown)
  · intro hkeeps
    exact ⟨fun _ => hkeeps, fun _ => checkIntersection_of_known hlength hknown⟩

end

/-! ## Two views side by side -/

/-- Two views in a row. -/
def pairApp (start «end» start' end' : Int) : App ℚ := .ofViews
  [⟨0, 0, 100, 100, 0, 0, fun _ => none, fun _ => none⟩,
    ⟨start, 10, «end», 20, 1, 0, fun _ => none, fun _ => none⟩,
    ⟨start', 10, end', 20, 2, 0, fun _ => none, fun _ => none⟩]

theorem pairApp_known {start «end» start' end' : Int} (h : 0 ≤ start ∧ 0 ≤ «end»)
    (h' : 0 ≤ start' ∧ 0 ≤ end') : (pairApp start «end» start' end').Known := by
  intro view hview o s
  simp only [pairApp, App.ofViews, List.mapIdx_cons, List.mapIdx_nil, List.mem_cons,
    List.not_mem_nil, or_false] at hview
  obtain rfl | rfl | rfl := hview <;> cases o <;> cases s <;>
    simp only [View.edge, View.startAt, View.endAt] <;> omega

theorem checkIntersection_exact_iff_pair :
    (checkIntersection (pairApp 10 20 30 40) (pairApp 10 20 50 60) ↔
        KeepsEdgeOrder (pairApp 10 20 30 40) (pairApp 10 20 50 60)) ↔
      KeepsEdgeOrder (pairApp 10 20 30 40) (pairApp 10 20 50 60) :=
  checkIntersection_exact_iff rfl (pairApp_known (by decide) (by decide))

/-- An app in which the two views have changed places is accepted. -/
theorem swapped_accepted :
    let ref := pairApp 10 20 30 40
    let app := pairApp 30 40 10 20
    (app.views.length = ref.views.length ∧ ref.Known ∧ app.Known) ∧
      ¬ (checkIntersection ref app ↔ KeepsEdgeOrder ref app) := by
  intro ref app
  have hknown : ref.Known := pairApp_known (by decide) (by decide)
  refine ⟨⟨rfl, hknown, pairApp_known (by decide) (by decide)⟩, ?_⟩
  intro hexact
  have hkeeps := hexact.mp (checkIntersection_of_known rfl hknown)
  have hsign := hkeeps .horizontal 1 2 (by decide) (by decide) (by decide) (by decide +kernel)
    _ _ _ _ rfl rfl rfl rfl .start .start
  revert hsign
  decide

end InferUI
