import InferUI.Normalize

/-!
# Repairing inconsistencies

`TryFixInconsistencies` of `syn_helper.cpp`: while the layout solver puts views elsewhere, the
margins of views that are off by one pixel are changed by one, first horizontally, then
vertically. The repair gives up when as many views are off after a round as before it.
-/

namespace InferUI
open Search
variable {Prob : Type}

namespace App

/-- `TryFixNode`; `none` is the exception of `attributes.at`. -/
def tryFixNode (app : App Prob) (o : Orientation) (p : Nat) (diff : Int) : Option (App Prob) :=
  (app.getAttribute o p).map fun attr =>
    if attr.valuePrimary = 0 ∧ 0 < attr.valueSecondary then
      app.applyAttribute o p { attr with valueSecondary := attr.valueSecondary - diff }
    else app

/-- The body of the loop over the views that are elsewhere. -/
def fixView (synApp : App Prob) (o : Orientation) (ids : List Int) (app : App Prob) (id : Int) :
    Option (App Prob) := do
  let refView ← app.findView id
  let renderedView ← synApp.findView id
  let diff := refView.startAt o - renderedView.startAt o
  if diff.natAbs = 1 then do
    let independent ← app.isIndependent o refView.pos ids
    if independent then app.tryFixNode o refView.pos diff else some app
  else some app

/-- The `while` loop of one orientation: the app and its rendering when no view is elsewhere any
more, `some none` when it gives up, `none` when it takes more rounds than the fuel. -/
def repairLoop (solver : Solver) (o : Orientation) :
    Nat → App Prob → App Prob → List Int → Option (Option (App Prob × App Prob))
  | 0, _, _, _ => none
  | fuel + 1, app, synApp, ids =>
    if ids.isEmpty then some (some (app, synApp))
    else do
      let app ← ids.foldlM (fixView synApp o ids) app
      let synApp ← app.render solver
      let cids ← findNonMatchingViews app synApp o
      if cids.length = ids.length then some none else repairLoop solver o fuel app synApp cids

/-- The loop over the orientations. -/
def repairAll (solver : Solver) (fuel : Nat) :
    List Orientation → App Prob → App Prob → Option (Option (App Prob))
  | [], app, _ => some (some app)
  | o :: orientations, app, synApp => do
    let ids ← findNonMatchingViews app synApp o
    let result ← repairLoop solver o fuel app synApp ids
    match result with
    | none => some none
    | some (app, synApp) => repairAll solver fuel orientations app synApp

/-- The returned value and the app that is left in `ref_app`. -/
def tryFixInconsistencies (solver : Solver) (fuel : Nat) (refApp : App Prob) :
    Option (Bool × App Prob) := do
  let app ← refApp.copy
  let synApp ← app.render solver
  if appMatch app synApp then return (true, refApp)
  let result ← repairAll solver fuel [.horizontal, .vertical] app synApp
  match result with
  | none => return (false, refApp)
  | some app =>
    let out ← app.copy
    return (true, out)

end App

/-- The documents tell the same about one orientation. -/
def LayoutJson.SameIn (json json' : LayoutJson) (o : Orientation) : Prop :=
  json.xOffset = json'.xOffset ∧ json.yOffset = json'.yOffset ∧
    json.layout.map (fun view => (view.id, view.width, view.height, view.attributes o)) =
      json'.layout.map fun view => (view.id, view.width, view.height, view.attributes o)

/-- In each orientation the solver looks at the attributes of that orientation only. -/
def Solver.Separate (solver : Solver) : Prop :=
  ∀ json json' o, json.SameIn json' o → ∀ p,
    (solver json p).startAt o = (solver json' p).startAt o ∧
      (solver json p).endAt o = (solver json' p).endAt o

/-- The solver leaves the root as it is. -/
def Solver.LeavesRoot (solver : Solver) : Prop :=
  ∀ json root, json.layout[0]? = some root →
    solver json 0 = ⟨json.xOffset, json.yOffset, json.xOffset + root.width,
      json.yOffset + root.height⟩

namespace App

/-! ## What a repair changes -/

/-- An attribute as it was, or with another second margin that is not negative. -/
def Moved (old new : Option (Attribute Prob)) : Prop :=
  new = old ∨ ∃ attr s, old = some attr ∧ 0 ≤ s ∧ new = some { attr with valueSecondary := s }

theorem Moved.trans {a b c : Option (Attribute Prob)} (h : Moved a b) (h' : Moved b c) :
    Moved a c := by
  obtain rfl | ⟨attr, s, rfl, hs, rfl⟩ := h
  · exact h'
  · obtain rfl | ⟨attr', s', he, hs', rfl⟩ := h'
    · exact Or.inr ⟨attr, s, rfl, hs, rfl⟩
    · obtain rfl := Option.some.inj he
      exact Or.inr ⟨attr, s', rfl, hs', rfl⟩

/-- The same views, with second margins changed in one orientation. -/
structure Repaired (o : Orientation) (app app' : App Prob) : Prop where
  like : Like app app'
  other : ∀ o' ≠ o, ∀ p, app'.getAttribute o' p = app.getAttribute o' p
  moved : ∀ p, Moved (app.getAttribute o p) (app'.getAttribute o p)

section
variable {app app' app'' : App Prob} {o : Orientation}

theorem Repaired.refl (o : Orientation) (app : App Prob) : Repaired o app app :=
  ⟨.refl app, fun _ _ _ => rfl, fun _ => Or.inl rfl⟩

theorem Repaired.trans (h : Repaired o app app') (h' : Repaired o app' app'') :
    Repaired o app app'' :=
  ⟨h.like.trans h'.like, fun o' ho p => (h'.other o' ho p).trans (h.other o' ho p),
    fun p => (h.moved p).trans (h'.moved p)⟩

theorem Repaired.moved_all (h : Repaired o app app') (o' : Orientation) (p : Nat) :
    Moved (app.getAttribute o' p) (app'.getAttribute o' p) := by
  by_cases ho : o' = o
  · exact ho ▸ h.moved p
  · exact Or.inl (h.other o' ho p)

/-- The margin moves by one pixel at most, and only where it is positive. -/
theorem tryFixNode_repaired {p : Nat} {diff : Int} (hdiff : diff.natAbs = 1)
    (h : app.tryFixNode o p diff = some app') : Repaired o app app' := by
  obtain ⟨attr, hattr, rfl⟩ := Option.map_eq_some_iff.mp h
  split
  · rename_i hmargins
    have hp := lt_of_getAttribute hattr
    refine ⟨like_applyAttribute app o p _, ?_, ?_⟩
    · intro o' ho q
      rw [getAttribute_applyAttribute app hp, if_neg fun hq => ho hq.1]
    · intro q
      rw [getAttribute_applyAttribute app hp]
      split
      · rename_i hq
        obtain ⟨_, rfl⟩ := hq
        exact Or.inr ⟨attr, _, hattr, by omega, rfl⟩
      · exact Or.inl rfl
  · exact .refl o app

theorem fixView_repaired {synApp : App Prob} {ids : List Int} {id : Int}
    (h : fixView synApp o ids app id = some app') : Repaired o app app' := by
  simp only [fixView, Option.bind_eq_bind, Option.bind_eq_some_iff] at h
  obtain ⟨refView, _, renderedView, _, h⟩ := h
  split at h
  · rename_i hdiff
    obtain ⟨independent, _, h⟩ := Option.bind_eq_some_iff.mp h
    cases independent with
    | true => exact tryFixNode_repaired hdiff h
    | false =>
      obtain rfl := Option.some.inj h
      exact .refl o app
  · obtain rfl := Option.some.inj h
    exact .refl o app

theorem fixViews_repaired {synApp : App Prob} {ids rest : List Int}
    (h : rest.foldlM (fixView synApp o ids) app = some app') : Repaired o app app' := by
  induction rest generalizing app with
  | nil =>
    obtain rfl := Option.some.inj h
    exact .refl o app
  | cons id rest ih =>
    rw [List.foldlM_cons, Option.bind_eq_bind, Option.bind_eq_some_iff] at h
    obtain ⟨next, hnext, h⟩ := h
    exact (fixView_repaired hnext).trans (ih h)

/-- A repair that finishes leaves no view elsewhere in its orientation. -/
theorem repairLoop_repaired {solver : Solver} {fuel : Nat} {synApp synApp' : App Prob}
    {ids : List Int} (hrender : app.render solver = some synApp)
    (hids : findNonMatchingViews app synApp o = some ids)
    (h : repairLoop solver o fuel app synApp ids = some (some (app', synApp'))) :
    Repaired o app app' ∧ app'.render solver = some synApp' ∧
      findNonMatchingViews app' synApp' o = some [] := by
  induction fuel generalizing app synApp ids with
  | zero => cases h
  | succ fuel ih =>
    rw [repairLoop] at h
    split at h
    · rename_i hnil
      simp only [Option.some.injEq, Prod.mk.injEq] at h
      obtain ⟨rfl, rfl⟩ := h
      rw [List.isEmpty_iff] at hnil
      exact ⟨.refl o app, hrender, hnil ▸ hids⟩
    · simp only [Option.bind_eq_bind, Option.bind_eq_some_iff] at h
      obtain ⟨next, hnext, syn, hsyn, cids, hcids, h⟩ := h
      split at h
      · cases h
      · obtain ⟨hrep, hdone⟩ := ih hsyn hcids h
        exact ⟨(fixViews_repaired hnext).trans hrep, hdone⟩

/-! ## The other orientation -/

/-- A repair of one orientation tells the solver nothing new about the other. -/
theorem document_sameIn (hlike : Like app app')
    (hattrs : ∀ p, app'.getAttribute o p = app.getAttribute o p) :
    app'.document.SameIn app.document o := by
  have hoffset (f : View Prob → Int) (hf : ∀ view, f view.bare = f view) :
      (app'.views[0]?).elim 0 f = (app.views[0]?).elim 0 f := by
    cases hview : app.views[0]? with
    | none =>
      have hle := List.getElem?_eq_none_iff.mp hview
      rw [List.getElem?_eq_none (by rw [hlike.length]; exact hle)]
    | some view =>
      obtain ⟨view', hview', hbare⟩ := hlike.view hview
      rw [hview']
      exact (hf view').symm.trans (hbare ▸ hf view)
  refine ⟨hoffset (·.xleft) fun _ => rfl, hoffset (·.ytop) fun _ => rfl, ?_⟩
  rw [document, document, List.map_map, List.map_map]
  apply List.ext_getElem?
  intro p
  rw [List.getElem?_map, List.getElem?_map]
  cases hview : app.views[p]? with
  | none =>
    have hle := List.getElem?_eq_none_iff.mp hview
    rw [List.getElem?_eq_none (by rw [hlike.length]; exact hle)]
    rfl
  | some view =>
    obtain ⟨view', hview', hbare⟩ := hlike.view hview
    have hattr : view'.attributes o = view.attributes o := by
      simpa [getAttribute, hview, hview'] using hattrs p
    have hjson : app'.attributeJson = app.attributeJson := by
      funext attr
      rw [attributeJson, attributeJson, hlike.idOf, funext hlike.idOf]
    have hshown (view : View Prob) : (view.id, view.width, view.height) =
        (view.bare.id, view.bare.width, view.bare.height) := rfl
    have hsame := hshown view'
    rw [hbare, ← hshown view] at hsame
    simp only [Prod.mk.injEq] at hsame
    rw [hview', Option.map_some, Option.map_some]
    simp only [Function.comp_apply, viewJson, hattr, hjson, hsame]

/-- The views that are elsewhere depend on the coordinates and the locations only. -/
theorem mismatching_congr {solver : Solver} {json json' : LayoutJson} (hlike : Like app app')
    (hlocation : ∀ p, (solver json' p).startAt o = (solver json p).startAt o ∧
      (solver json' p).endAt o = (solver json p).endAt o) :
    app'.mismatching solver json' o = app.mismatching solver json o := by
  have hbare (app : App Prob) (json : LayoutJson) : app.mismatching solver json o =
      ((app.views.map View.bare).filter fun view =>
        Mismatch view (solver json view.pos) o).map (·.id) := by
    rw [mismatching, List.filter_map, List.map_map]
    cases o <;> rfl
  rw [hbare app' json', hbare app json, hlike]
  congr 1
  apply List.filter_congr
  intro view _
  have hiff : Mismatch view (solver json' view.pos) o ↔ Mismatch view (solver json view.pos) o := by
    unfold Mismatch
    rw [(hlocation view.pos).1, (hlocation view.pos).2]
  exact decide_eq_decide.mpr hiff

/-- What is known of a rendered app. -/
theorem render_eq_some {solver : Solver} {synApp : App Prob}
    (h : app.render solver = some synApp) : synApp = app.rendered solver app.document := by
  rw [App.render, Option.map_eq_some_iff] at h
  obtain ⟨json, hjson, rfl⟩ := h
  rw [toJson, Option.ite_none_right_eq_some, Option.some.injEq] at hjson
  rw [hjson.2]

/-- Once an orientation matches, repairing the other one does not change that. -/
theorem Repaired.keeps {solver : Solver} (hseparate : solver.Separate) {synApp synApp' : App Prob}
    {o' : Orientation} (h : Repaired o app app') (ho : o' ≠ o)
    (hrender : app.render solver = some synApp) (hrender' : app'.render solver = some synApp')
    (hdone : findNonMatchingViews app synApp o' = some []) :
    findNonMatchingViews app' synApp' o' = some [] := by
  rw [render_eq_some hrender, findNonMatchingViews_rendered] at hdone
  rw [render_eq_some hrender', findNonMatchingViews_rendered, ← hdone]
  congr 1
  exact mismatching_congr h.like (hseparate _ _ o' (document_sameIn h.like (h.other o' ho)))

theorem pointed_of_moved (hlike : Like app app') (hpointed : app.Pointed)
    (hmoved : ∀ o p, Moved (app.getAttribute o p) (app'.getAttribute o p)) : app'.Pointed := by
  intro o p attr hattr
  rw [hlike.length]
  obtain he | ⟨attr', s, he, _, he'⟩ := hmoved o p
  · exact hpointed o p attr (he ▸ hattr)
  · rw [he', Option.some.injEq] at hattr
    subst hattr
    exact hpointed o p attr' he

/-- A repair of both orientations leaves no view elsewhere. -/
theorem repairAll_repaired {solver : Solver} (hseparate : solver.Separate) {fuel : Nat}
    {synApp : App Prob} (hrender : app.render solver = some synApp)
    (h : repairAll solver fuel [.horizontal, .vertical] app synApp = some (some app')) :
    Like app app' ∧ (∀ o p, Moved (app.getAttribute o p) (app'.getAttribute o p)) ∧
      Matches solver app' := by
  rw [repairAll, Option.bind_eq_bind, Option.bind_eq_some_iff] at h
  obtain ⟨ids₁, hids₁, h⟩ := h
  obtain ⟨_ | ⟨app₁, synApp₁⟩, hloop₁, h⟩ := Option.bind_eq_some_iff.mp h
  · cases h
  obtain ⟨hrep₁, hrender₁, hdone₁⟩ := repairLoop_repaired hrender hids₁ hloop₁
  change repairAll solver fuel [.vertical] app₁ synApp₁ = some (some app') at h
  rw [repairAll, Option.bind_eq_bind, Option.bind_eq_some_iff] at h
  obtain ⟨ids₂, hids₂, h⟩ := h
  obtain ⟨_ | ⟨app₂, synApp₂⟩, hloop₂, h⟩ := Option.bind_eq_some_iff.mp h
  · cases h
  obtain ⟨hrep₂, hrender₂, hdone₂⟩ := repairLoop_repaired hrender₁ hids₂ hloop₂
  change some (some app₂) = some (some app') at h
  obtain rfl : app₂ = app' := by simpa using h
  have hkept := hrep₂.keeps hseparate (by simp) hrender₁ hrender₂ hdone₁
  refine ⟨hrep₁.like.trans hrep₂.like,
    fun o p => (hrep₁.moved_all o p).trans (hrep₂.moved_all o p), synApp₂, hrender₂, ?_⟩
  obtain rfl := render_eq_some hrender₂
  rw [findNonMatchingViews_rendered, Option.some.injEq] at hkept hdone₂
  rw [appMatch_rendered]
  intro o
  cases o
  · exact hkept
  · exact hdone₂

/-- A repair that succeeds leaves an app that renders to its own coordinates, one that fails
leaves everything as it was, and no margin becomes negative. -/
theorem tryFixInconsistencies_contract (solver : Solver) (hseparate : solver.Separate)
    (app : App Prob) (hids : (app.views.map (·.id)).Nodup) (hpointed : app.Pointed) (fuel : Nat)
    (fixed : Bool) (out : App Prob)
    (h : app.tryFixInconsistencies solver fuel = some (fixed, out)) :
    (fixed = true → Matches solver out) ∧ (fixed = false → out = app) ∧ Like app out ∧
      ∀ o p attr, app.getAttribute o p = some attr → ∃ attr',
        out.getAttribute o p = some attr' ∧
        (0 ≤ attr.valuePrimary → 0 ≤ attr'.valuePrimary) ∧
        (0 ≤ attr.valueSecondary → 0 ≤ attr'.valueSecondary) := by
  simp only [tryFixInconsistencies, Option.bind_eq_bind, Option.bind_eq_some_iff] at h
  obtain ⟨base, hcopy, synApp, hrender, h⟩ := h
  obtain ⟨hlike, hattrs, _⟩ := copy_eq_some hids hpointed hcopy
  have hsame (o : Orientation) (p : Nat) (attr : Attribute Prob)
      (ha : app.getAttribute o p = some attr) : ∃ attr', app.getAttribute o p = some attr' ∧
        (0 ≤ attr.valuePrimary → 0 ≤ attr'.valuePrimary) ∧
        (0 ≤ attr.valueSecondary → 0 ≤ attr'.valueSecondary) :=
    ⟨attr, ha, id, id⟩
  split at h
  · rename_i hmatch
    obtain ⟨rfl, rfl⟩ : true = fixed ∧ app = out := by simpa using h
    refine ⟨fun _ => ?_, fun hf => by simp at hf, .refl app, hsame⟩
    rw [← matches_congr solver hlike hattrs]
    exact ⟨synApp, hrender, hmatch⟩
  · obtain ⟨_ | app₂, hall, h⟩ := Option.bind_eq_some_iff.mp h
    · obtain ⟨rfl, rfl⟩ : false = fixed ∧ app = out := by simpa using h
      exact ⟨fun hf => by simp at hf, fun _ => rfl, .refl app, hsame⟩
    · obtain ⟨copied, hcopied, h⟩ := Option.bind_eq_some_iff.mp h
      obtain ⟨rfl, rfl⟩ : true = fixed ∧ copied = out := by simpa using h
      obtain ⟨hlike₂, hmoved, hmatches⟩ := repairAll_repaired hseparate hrender hall
      have hlike₂ := hlike.trans hlike₂
      have hmoved (o : Orientation) (p : Nat) :
          Moved (app.getAttribute o p) (app₂.getAttribute o p) := hattrs o p ▸ hmoved o p
      have hpointed₂ := pointed_of_moved hlike₂ hpointed hmoved
      obtain ⟨hlike₃, hattrs₃, _⟩ := copy_eq_some (hlike₂.ids ▸ hids) hpointed₂ hcopied
      refine ⟨fun _ => (matches_congr solver hlike₃ hattrs₃).mpr hmatches,
        fun hf => by simp at hf, hlike₂.trans hlike₃, ?_⟩
      intro o p attr ha
      obtain he | ⟨attr', s, he, hs, he'⟩ := hmoved o p
      · exact ⟨attr, by rw [hattrs₃, he, ha], id, id⟩
      · obtain rfl := Option.some.inj (ha.symm.trans he)
        exact ⟨{ attr with valueSecondary := s }, by rw [hattrs₃, he'], id, fun _ => hs⟩

end
end App

/-! ## A view that is off by one pixel -/

/-- Where a solver that leaves the root as it is puts the root. -/
def LayoutJson.rootLocation (json : LayoutJson) : Location :=
  ⟨json.xOffset, json.yOffset, json.xOffset + (json.layout[0]?).elim 0 (·.width),
    json.yOffset + (json.layout[0]?).elim 0 (·.height)⟩

/-- A layout solver for views in one row: only their left and right sides depend on margins. -/
def rowSolver (place : List (Option AttributeJson) → Nat → Int × Int) : Solver := fun json p =>
  if p = 0 then json.rootLocation
  else
    let (left, right) := place (json.layout.map fun view => view.attributes .horizontal) p
    ⟨left, 40, right, 60⟩

theorem LayoutJson.SameIn.rootLocation {json json' : LayoutJson} {o : Orientation}
    (h : json.SameIn json' o) : json.rootLocation = json'.rootLocation := by
  obtain ⟨hx, hy, hlayout⟩ := h
  have hroot := congrArg (·[0]?) hlayout
  simp only [List.getElem?_map] at hroot
  rw [LayoutJson.rootLocation, LayoutJson.rootLocation, hx, hy]
  cases h₁ : json.layout[0]? <;> cases h₂ : json'.layout[0]? <;> simp_all

theorem rowSolver_separate (place : List (Option AttributeJson) → Nat → Int × Int) :
    (rowSolver place).Separate := by
  intro json json' o h p
  by_cases hp : p = 0
  · rw [rowSolver, rowSolver, if_pos hp, if_pos hp, h.rootLocation]
    exact ⟨rfl, rfl⟩
  · rw [rowSolver, rowSolver, if_neg hp, if_neg hp]
    cases o with
    | vertical => exact ⟨rfl, rfl⟩
    | horizontal =>
      have hattrs := congrArg (List.map fun view => view.2.2.2) h.2.2
      rw [List.map_map, List.map_map] at hattrs
      have hsame : json.layout.map (fun view => view.attributes .horizontal) =
          json'.layout.map fun view => view.attributes .horizontal := hattrs
      rw [hsame]
      exact ⟨rfl, rfl⟩

theorem rowSolver_leavesRoot (place : List (Option AttributeJson) → Nat → Int × Int) :
    (rowSolver place).LeavesRoot := by
  intro json root hroot
  rw [rowSolver, if_pos rfl, LayoutJson.rootLocation, hroot]
  rfl

namespace App

/-- The first centred view with a margin of 2, which puts it a pixel too far to the left. -/
def shiftedApp : App ℚ :=
  centredApp.applyAttribute .horizontal 1 (.ofCenter .l2lxr2r .fixed 0 2 1 0 0)

/-- Centres each view in its room; half a pixel is rounded up. -/
def rowCentringSolver : Solver := rowSolver fun attrs p =>
  let middle := if p = 1 then 50 else 80
  let left := (2 * middle - 19 - (attrs[p]?.join).elim 0 (·.valueSecondary)) / 2
  (left, left + 20)

theorem tryFixInconsistencies_contract_sample :
    ∃ out, shiftedApp.tryFixInconsistencies rowCentringSolver 2 = some (true, out) ∧
      (true = true → Matches rowCentringSolver out) ∧ (true = false → out = shiftedApp) ∧
      Like shiftedApp out ∧
      ∀ o p attr, shiftedApp.getAttribute o p = some attr → ∃ attr',
        out.getAttribute o p = some attr' ∧
        (0 ≤ attr.valuePrimary → 0 ≤ attr'.valuePrimary) ∧
        (0 ≤ attr.valueSecondary → 0 ≤ attr'.valueSecondary) := by
  have hmade : shiftedApp.WellMade := centredApp_normalizable.applyAttribute rfl rfl rfl rfl
    (by decide)
  have hfixed : (shiftedApp.tryFixInconsistencies rowCentringSolver 2).map (·.1) = some true := by
    decide +kernel
  obtain ⟨⟨fixed, out⟩, hout, rfl⟩ := Option.map_eq_some_iff.mp hfixed
  exact ⟨out, hout, tryFixInconsistencies_contract rowCentringSolver (rowSolver_separate _)
    shiftedApp hmade.rooted.distinct hmade.pointed 2 true out hout⟩

end App
end InferUI
