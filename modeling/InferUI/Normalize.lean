import InferUI.LayoutSolver
import Mathlib.Order.WellFounded

/-!
# Normalizing margins

`NormalizeMargins` of `syn_helper.cpp`: margins (0, 1) and (1, 0) become (0, 0), one attribute at
a time in an order in which no attribute depends on an unresolved one. After each change the app
is rendered. A change that moves a view is undone by a copy of the last app that matched.
-/

namespace InferUI
open Search
variable {Prob : Type}

namespace Attribute

/-- Margins (0, 1) or (1, 0). -/
def unnormalized (attr : Attribute Prob) : Bool :=
  decide (attr.valuePrimary = 0 ∧ attr.valueSecondary = 1) ||
    decide (attr.valuePrimary = 1 ∧ attr.valueSecondary = 0)

def normalized (attr : Attribute Prob) : Attribute Prob :=
  { attr with valuePrimary := 0, valueSecondary := 0 }

end Attribute

namespace App

/-- The views that `FindUnnormalizedAttributes` looks at. -/
def unresolved (app : App Prob) (resolved : List Int) : List (View Prob) :=
  app.views.filter fun view => decide (view.id ∉ resolved) && !view.isContentFrame

/-- `FindUnnormalizedAttributes`; `none` is a failed `CHECK` of `GetAttribute`. -/
def findUnnormalizedAttributes (app : App Prob) (o : Orientation) (resolved : List Int) :
    Option (List Int) :=
  if ∀ view ∈ app.unresolved resolved, (view.attributes o).isSome = true then
    some (((app.unresolved resolved).filter fun view =>
      (view.attributes o).any Attribute.unnormalized).map (·.id))
  else none

def hasUnnormalizedAttributes (app : App Prob) : Option Bool := do
  let horizontal ← app.findUnnormalizedAttributes .horizontal []
  if !horizontal.isEmpty then return true
  let vertical ← app.findUnnormalizedAttributes .vertical []
  return !vertical.isEmpty

/-- The loop over the views up to its `break`: the first one that depends on no other. -/
def firstIndependent (app : App Prob) (o : Orientation) (ids : List Int) :
    List Int → Option (Option Nat)
  | [] => some none
  | id :: rest => do
    let view ← app.findView id
    let independent ← app.isIndependent o view.pos ids
    if independent then some (some view.pos) else firstIndependent app o ids rest

/-- What the loop does to the view it finds. -/
def resolve (app : App Prob) (o : Orientation) (resolved : List Int) :
    Option Nat → Option (App Prob × List Int)
  | none => some (app, resolved)
  | some p => (app.getAttribute o p).map fun attr =>
    (if attr.unnormalized then app.applyAttribute o p attr.normalized else app,
      app.idOf p :: resolved)

/-- One round of the `while` loop: the committed app, the tentative one and the resolved ids. -/
def normalizeRound (solver : Solver) (o : Orientation) (refApp app : App Prob)
    (resolved ids : List Int) : Option (App Prob × App Prob × List Int) := do
  let found ← app.firstIndependent o ids ids
  let (app, resolved) ← app.resolve o resolved found
  let synApp ← app.render solver
  if appMatch app synApp then
    let refApp ← app.copy
    return (refApp, app, resolved)
  else
    let app ← refApp.copy
    return (refApp, app, resolved)

/-- `none` when the rounds take more than the fuel. -/
def normalizeLoop (solver : Solver) (o : Orientation) :
    Nat → App Prob → App Prob → List Int → List Int → Option (App Prob × App Prob)
  | 0, _, _, _, _ => none
  | fuel + 1, refApp, app, resolved, ids =>
    if ids.isEmpty then some (refApp, app)
    else do
      let (refApp, app, resolved) ← normalizeRound solver o refApp app resolved ids
      let ids ← app.findUnnormalizedAttributes o resolved
      normalizeLoop solver o fuel refApp app resolved ids

/-- The body of the loop over the orientations. -/
def normalizeOrientation (solver : Solver) (fuel : Nat) (apps : App Prob × App Prob)
    (o : Orientation) : Option (App Prob × App Prob) := do
  let ids ← apps.2.findUnnormalizedAttributes o []
  normalizeLoop solver o fuel apps.1 apps.2 [] ids

def normalizeMargins (solver : Solver) (fuel : Nat) (refApp : App Prob) : Option (App Prob) := do
  let unnormalized ← refApp.hasUnnormalizedAttributes
  if !unnormalized then return refApp
  let app ← refApp.copy
  let synApp ← app.render solver
  if !appMatch app synApp then return refApp
  let apps ← [Orientation.horizontal, .vertical].foldlM (normalizeOrientation solver fuel)
    (refApp, app)
  return apps.1

/-! ## The apps it is given -/

/-- An app with acyclic attributes and ids in ascending order. -/
structure Normalizable (app : App Prob) : Prop extends app.WellMade where
  ascending : (app.views.map (·.id)).Pairwise (· < ·)
  acyclic : ∀ o, Acyclic (app.targetsOf o)

/-- An attribute as it was, or with margins (0, 1) or (1, 0) replaced by (0, 0). -/
def Normalized (old new : Option (Attribute Prob)) : Prop :=
  new = old ∨ ∃ attr, old = some attr ∧ attr.unnormalized = true ∧ new = some attr.normalized

/-- The same views, with attributes some of which are normalized. -/
structure Stage (orig app : App Prob) : Prop where
  like : Like orig app
  normalized : ∀ o p, Normalized (orig.getAttribute o p) (app.getAttribute o p)

section
variable {orig app app' : App Prob} {o : Orientation}

theorem Stage.refl (app : App Prob) : Stage app app := ⟨.refl app, fun _ _ => Or.inl rfl⟩

theorem Stage.congr (h : Stage orig app) (hlike : Like app app')
    (hattrs : SameAttributes app app') : Stage orig app' :=
  ⟨h.like.trans hlike, fun o p => hattrs o p ▸ h.normalized o p⟩

theorem Stage.targetsOf (h : Stage orig app) : app.targetsOf o = orig.targetsOf o := by
  funext p
  unfold App.targetsOf
  obtain he | ⟨attr, he, _, he'⟩ := h.normalized o p
  · rw [he]
  · rw [he, he']
    rfl

/-- What normalizing leaves is an app of the same kind. -/
theorem Stage.normalizable (h : Stage orig app) (horig : orig.Normalizable) :
    app.Normalizable where
  toWellMade := by
    apply horig.of_attributes h.like
    intro o p
    obtain he | ⟨attr, he, _, he'⟩ := h.normalized o p
    · exact Or.inl he
    · exact Or.inr ⟨attr, _, he, he', rfl, rfl, rfl, (horig.checked o p attr he).1, le_rfl, le_rfl⟩
  ascending := h.like.ids ▸ horig.ascending
  acyclic o := h.targetsOf ▸ horig.acyclic o

/-! ## Some view is independent -/

/-- The ids `FindUnnormalizedAttributes` returns for a complete app. -/
def unnormalizedIds (app : App Prob) (o : Orientation) (resolved : List Int) : List Int :=
  ((app.unresolved resolved).filter fun view =>
    (view.attributes o).any Attribute.unnormalized).map (·.id)

theorem findUnnormalizedAttributes_eq (h : app.Complete) (resolved : List Int) :
    app.findUnnormalizedAttributes o resolved = some (app.unnormalizedIds o resolved) := by
  apply if_pos
  intro view hview
  obtain ⟨hview, hcond⟩ := List.mem_filter.mp hview
  simp only [Bool.and_eq_true, Bool.not_eq_true'] at hcond
  exact h view hview hcond.2 o (by cases o <;> simp)

theorem mem_unnormalizedIds {resolved : List Int} {id : Int}
    (h : id ∈ app.unnormalizedIds o resolved) :
    id ∉ resolved ∧ ∃ p < app.views.length, app.idOf p = id ∧
      ∃ attr, app.getAttribute o p = some attr := by
  obtain ⟨view, hview, rfl⟩ := List.mem_map.mp h
  obtain ⟨hview, hany⟩ := List.mem_filter.mp hview
  obtain ⟨hview, hcond⟩ := List.mem_filter.mp hview
  simp only [Bool.and_eq_true, decide_eq_true_eq] at hcond
  obtain ⟨attr, hattr, _⟩ := Option.any_eq_true _ _ |>.mp hany
  obtain ⟨p, hp, rfl⟩ := List.getElem_of_mem hview
  exact ⟨hcond.1, p, hp, app.idOf_eq hp, attr, by simp [getAttribute, hp, hattr]⟩

theorem unnormalizedIds_ascending (h : (app.views.map (·.id)).Pairwise (· < ·))
    (resolved : List Int) : (app.unnormalizedIds o resolved).Pairwise (· < ·) :=
  h.sublist ((List.filter_sublist.trans List.filter_sublist).map _)

/-- Of finitely many views of an acyclic graph one reaches none of the others. -/
theorem exists_independent (h : app.Linked o) (hacyclic : Acyclic (app.targetsOf o))
    {ids : List Int} {p : Nat} (hp : p < app.views.length) (hin : app.idOf p ∈ ids) :
    ∃ q < app.views.length, app.idOf q ∈ ids ∧
      ∀ r < app.views.length, app.idOf r ∈ ids → Reaches (app.targetsOf o) q r → r = q := by
  obtain ⟨rank, hrank⟩ := hacyclic.exists_rank (targetsOf_closed h)
  have descend {a b : Nat} (ha : a < app.views.length) (hab : Reaches (app.targetsOf o) a b) :
      b = a ∨ rank b < rank a := by
    induction hab with
    | refl => exact Or.inl rfl
    | @tail b c hab hedge ih =>
      have hb := Reaches.closed (targetsOf_closed h) hab (Finset.mem_range.mpr ha)
      have hlt := (hrank b hb).2 c hedge
      obtain rfl | hlt' := ih
      · exact Or.inr hlt
      · exact Or.inr (hlt.trans hlt')
  obtain ⟨q, ⟨hq, hqin⟩, hmin⟩ := (measure rank).wf.has_min
    {q | q < app.views.length ∧ app.idOf q ∈ ids} ⟨p, hp, hin⟩
  refine ⟨q, hq, hqin, ?_⟩
  intro r hr hrin hreach
  obtain he | hlt := descend hq hreach
  · exact he
  · exact absurd hlt (hmin r ⟨hr, hrin⟩)

/-- The loop over the views finds one that is independent if there is one. -/
theorem firstIndependent_spec (hroot : app.Rooted) (h : app.Linked o) {ids rest : List Int}
    (hids : ids.Pairwise (· < ·)) (hall : ∀ id ∈ ids, ∃ q < app.views.length, app.idOf q = id)
    (hsub : rest ⊆ ids) {p : Nat} (hp : p < app.views.length) (hin : app.idOf p ∈ rest)
    (hindependent : ∀ r < app.views.length, app.idOf r ∈ ids →
      Reaches (app.targetsOf o) p r → r = p) :
    ∃ q < app.views.length, app.firstIndependent o ids rest = some (some q) ∧
      app.idOf q ∈ ids := by
  induction rest with
  | nil => cases hin
  | cons id rest ih =>
    have hmem := hsub List.mem_cons_self
    obtain ⟨q, hq, rfl⟩ := hall id hmem
    obtain ⟨independent, hresult, hiff⟩ := isIndependent_spec hroot h hq hids hmem hall
    have hfind : app.findView (app.idOf q) = some app.views[q] := by
      rw [app.idOf_eq hq]
      exact findView_eq_some hroot.distinct (List.getElem_mem hq)
    rw [firstIndependent, hfind, Option.bind_eq_bind, Option.bind_some, app.getElem_pos hq, hresult,
      Option.bind_eq_bind, Option.bind_some]
    cases independent with
    | true => exact ⟨q, hq, rfl, hmem⟩
    | false =>
      apply ih fun x hx => hsub (List.mem_cons_of_mem _ hx)
      obtain he | hin := List.mem_cons.mp hin
      · -- then the view itself would be independent
        obtain rfl := (hroot.idOf_inj hp hq).mp he
        exact absurd (hiff.mpr hindependent) (by simp)
      · exact hin

/-! ## Rounds -/

theorem normalized_unnormalized (attr : Attribute Prob) :
    attr.normalized.unnormalized = false := by
  simp [Attribute.normalized, Attribute.unnormalized]

/-- Normalizing one more attribute. -/
theorem Stage.resolve (h : Stage orig app) {p : Nat} {attr : Attribute Prob}
    (hattr : app.getAttribute o p = some attr) (hun : attr.unnormalized = true) :
    Stage orig (app.applyAttribute o p attr.normalized) where
  like := h.like.trans (like_applyAttribute app o p attr.normalized)
  normalized := by
    intro o' q
    rw [getAttribute_applyAttribute app (lt_of_getAttribute hattr)]
    split
    · rename_i hq
      obtain ⟨rfl, rfl⟩ := hq
      obtain he | ⟨attr', _, _, he⟩ := h.normalized o' q
      · rw [he] at hattr
        exact Or.inr ⟨attr, hattr, hun, rfl⟩
      · rw [hattr, Option.some.injEq] at he
        subst he
        simp [normalized_unnormalized] at hun
    · exact h.normalized o' q

/-- A round resolves one of the ids. Whatever the solver answers, the committed app matches. -/
theorem normalizeRound_spec {solver : Solver} (horig : orig.Normalizable) {refApp : App Prob}
    (hstage : Stage orig app) (href : Stage orig refApp) (hmatches : Matches solver refApp)
    {resolved : List Int} (hne : app.unnormalizedIds o resolved ≠ []) :
    ∃ refApp' app' id, normalizeRound solver o refApp app resolved
        (app.unnormalizedIds o resolved) = some (refApp', app', id :: resolved) ∧
      id ∈ app.unnormalizedIds o resolved ∧ Stage orig refApp' ∧ Stage orig app' ∧
      Matches solver refApp' := by
  have happ := hstage.normalizable horig
  have hlinked := happ.linked o
  have hids := app.unnormalizedIds_ascending (o := o) happ.ascending resolved
  have hall (id : Int) (hid : id ∈ app.unnormalizedIds o resolved) :
      ∃ q < app.views.length, app.idOf q = id := by
    obtain ⟨_, q, hq, he, _⟩ := mem_unnormalizedIds hid
    exact ⟨q, hq, he⟩
  obtain ⟨id, hid⟩ := List.exists_mem_of_ne_nil _ hne
  obtain ⟨p₀, hp₀, rfl⟩ := hall id hid
  obtain ⟨q, hq, hqin, hindependent⟩ := exists_independent hlinked (happ.acyclic o) hp₀ hid
  obtain ⟨p, hp, hfound, hpin⟩ := firstIndependent_spec happ.rooted hlinked hids hall
    (List.Subset.refl _) hq hqin hindependent
  obtain ⟨_, p', hp', he, attr, hattr⟩ := mem_unnormalizedIds hpin
  obtain rfl := (happ.rooted.idOf_inj hp' hp).mp he
  obtain ⟨app₁, hresolve, hstage₁⟩ : ∃ app₁, app.resolve o resolved (some p') =
      some (app₁, app.idOf p' :: resolved) ∧ Stage orig app₁ := by
    rw [App.resolve, hattr, Option.map_some]
    by_cases hun : attr.unnormalized = true
    · exact ⟨_, by rw [if_pos hun], hstage.resolve hattr hun⟩
    · exact ⟨_, by rw [if_neg hun], hstage⟩
  have happ₁ := hstage₁.normalizable horig
  simp only [normalizeRound, hfound, hresolve, happ₁.render solver, Option.bind_eq_bind,
    Option.bind_some]
  by_cases hmatch : appMatch app₁ (app₁.rendered solver app₁.document) = true
  · obtain ⟨refApp', hcopy, hlike, hattrs⟩ := happ₁.copy
    rw [if_pos hmatch, hcopy]
    refine ⟨refApp', app₁, _, rfl, hpin, hstage₁.congr hlike hattrs, hstage₁, ?_⟩
    rw [matches_congr solver hlike hattrs]
    exact ⟨_, happ₁.render solver, hmatch⟩
  · obtain ⟨app', hcopy, hlike, hattrs⟩ := (href.normalizable horig).copy
    rw [if_neg hmatch, hcopy]
    exact ⟨refApp, app', _, rfl, hpin, href, href.congr hlike hattrs, hmatches⟩

/-- How many ids are left to resolve. -/
def left (app : App Prob) (resolved : List Int) : Nat :=
  ((app.views.map (·.id)).filter (· ∉ resolved)).length

theorem left_lt {resolved : List Int} {id : Int} (hid : id ∈ app.views.map (·.id))
    (hnew : id ∉ resolved) : app.left (id :: resolved) < app.left resolved := by
  have hfilter : (app.views.map (·.id)).filter (· ∉ id :: resolved) =
      ((app.views.map (·.id)).filter (· ∉ resolved)).filter (· ≠ id) := by
    rw [List.filter_filter]
    apply List.filter_congr
    intro x _
    by_cases hx : x = id <;> simp [hx]
  rw [left, left, hfilter, List.length_filter_lt_length_iff_exists]
  exact ⟨id, by simp [hid, hnew], by simp⟩

theorem left_le (app : App Prob) (resolved : List Int) : app.left resolved ≤ app.views.length := by
  rw [left, ← List.length_map (f := fun view : View Prob => view.id)]
  exact List.length_filter_le _ _

/-- The rounds of one orientation end, and the committed app matches. -/
theorem normalizeLoop_spec {solver : Solver} (horig : orig.Normalizable) {fuel : Nat}
    {refApp : App Prob} {resolved : List Int} (hfuel : orig.left resolved < fuel)
    (hstage : Stage orig app) (href : Stage orig refApp) (hmatches : Matches solver refApp) :
    ∃ refApp' app', normalizeLoop solver o fuel refApp app resolved
        (app.unnormalizedIds o resolved) = some (refApp', app') ∧
      Stage orig refApp' ∧ Stage orig app' ∧ Matches solver refApp' := by
  induction fuel generalizing app refApp resolved with
  | zero => omega
  | succ fuel ih =>
    rw [normalizeLoop]
    by_cases hnil : app.unnormalizedIds o resolved = []
    · exact ⟨refApp, app, by rw [hnil]; rfl, href, hstage, hmatches⟩
    · obtain ⟨refApp', app', id, hround, hid, href', hstage', hmatches'⟩ :=
        normalizeRound_spec horig hstage href hmatches hnil
      obtain ⟨hnew, p, hp, rfl, _⟩ := mem_unnormalizedIds hid
      have hmem : app.idOf p ∈ orig.views.map (·.id) := by
        rw [← hstage.like.ids, app.idOf_eq hp]
        exact List.mem_map_of_mem (List.getElem_mem hp)
      have hlt := left_lt hmem hnew
      rw [if_neg (by simpa using hnil)]
      simp only [hround, findUnnormalizedAttributes_eq (hstage'.normalizable horig).complete,
        Option.bind_eq_bind, Option.bind_some]
      exact ih (by omega) hstage' href' hmatches'

theorem normalizeOrientation_spec {solver : Solver} (horig : orig.Normalizable) {fuel : Nat}
    {refApp : App Prob} (hfuel : orig.views.length < fuel) (o : Orientation)
    (hstage : Stage orig app) (href : Stage orig refApp) (hmatches : Matches solver refApp) :
    ∃ refApp' app', normalizeOrientation solver fuel (refApp, app) o = some (refApp', app') ∧
      Stage orig refApp' ∧ Stage orig app' ∧ Matches solver refApp' := by
  have hleft := orig.left_le []
  rw [normalizeOrientation, findUnnormalizedAttributes_eq (hstage.normalizable horig).complete]
  exact normalizeLoop_spec horig (by omega) hstage href hmatches

/-- Normalizing ends, moves no view, changes margins (0, 1) and (1, 0) only, and leaves an app
that matches its rendering as one that does. -/
theorem normalizeMargins_safe (solver : Solver) (app : App Prob) (h : app.Normalizable)
    (fuel : Nat) (hfuel : app.views.length < fuel) :
    ∃ out, app.normalizeMargins solver fuel = some out ∧ Like app out ∧
      (∀ o p, Normalized (app.getAttribute o p) (out.getAttribute o p)) ∧
      (Matches solver app → Matches solver out) ∧ (¬ Matches solver app → out = app) := by
  have hfind (o : Orientation) := findUnnormalizedAttributes_eq (o := o) h.complete []
  have huntouched (o : Orientation) (p : Nat) :
      Normalized (app.getAttribute o p) (app.getAttribute o p) := Or.inl rfl
  obtain ⟨unnormalized, hhas⟩ : ∃ b, app.hasUnnormalizedAttributes = some b := by
    rw [hasUnnormalizedAttributes, hfind]
    simp only [hfind, Option.bind_eq_bind, Option.bind_some]
    split <;> exact ⟨_, rfl⟩
  obtain ⟨copied, hcopy, hlike, hattrs⟩ := h.copy
  have hstage := (Stage.refl app).congr hlike hattrs
  have hcopied := hstage.normalizable h
  have hrender := hcopied.render solver
  have hiff : Matches solver app ↔
      appMatch copied (copied.rendered solver copied.document) = true := by
    rw [← matches_congr solver hlike hattrs, Matches, hrender]
    simp
  rw [normalizeMargins, hhas]
  simp only [hcopy, hrender, Option.bind_eq_bind, Option.bind_some]
  cases unnormalized with
  | false => exact ⟨app, rfl, .refl app, huntouched, id, fun _ => rfl⟩
  | true =>
    cases hmatch : appMatch copied (copied.rendered solver copied.document) with
    | false =>
      have hno : ¬ Matches solver app := by simp [hiff, hmatch]
      exact ⟨app, rfl, .refl app, huntouched, fun hm => absurd hm hno, fun _ => rfl⟩
    | true =>
      have hmatches := hiff.mpr hmatch
      obtain ⟨ref₁, app₁, hrun₁, href₁, hstage₁, hmatches₁⟩ :=
        normalizeOrientation_spec h hfuel .horizontal hstage (.refl app) hmatches
      obtain ⟨ref₂, app₂, hrun₂, href₂, _, hmatches₂⟩ :=
        normalizeOrientation_spec h hfuel .vertical hstage₁ href₁ hmatches₁
      refine ⟨ref₂, ?_, href₂.like, href₂.normalized, fun _ => hmatches₂,
        fun hm => absurd hmatches hm⟩
      simp [hrun₁, hrun₂]

end

/-! ## Two centred views -/

/-- A view centred in the content frame and one centred in the room to its right, both with a
margin of 1 on their right. -/
def centredApp : App ℚ :=
  ((((App.ofViews [⟨0, 0, 100, 100, 0, 0, fun _ => none, fun _ => none⟩,
    ⟨40, 40, 60, 60, 1, 0, fun _ => none, fun _ => none⟩,
    ⟨70, 40, 90, 60, 2, 0, fun _ => none, fun _ => none⟩]).applyAttribute .horizontal 1
      (.ofCenter .l2lxr2r .fixed 0 1 1 0 0)).applyAttribute .vertical 1
      (.ofCenter .t2txb2b .fixed 0 0 1 0 0)).applyAttribute .horizontal 2
      (.ofCenter .l2rxr2r .fixed 0 1 2 1 0)).applyAttribute .vertical 2
      (.ofCenter .t2txb2b .fixed 0 0 2 1 1)

/-- Where the layout solver puts the views; half a pixel is rounded up. -/
def centringSolver : Solver := fun _ p =>
  match p with
  | 0 => ⟨0, 0, 100, 100⟩
  | 1 => ⟨40, 40, 60, 60⟩
  | _ => ⟨70, 40, 90, 60⟩

theorem centredApp_normalizable : centredApp.Normalizable := by
  have hlength : centredApp.views.length = 3 := rfl
  have hattrs : ∀ o ∈ [Orientation.horizontal, .vertical], ∀ p < 3,
      ∀ attr ∈ centredApp.getAttribute o p, attr.src = p ∧ attr.tgtPrimary < p ∧
        (∀ t ∈ attr.tgtSecondary, t < p) ∧ attr.Checked := by
    decide +kernel
  have hall (o : Orientation) (p : Nat) (attr : Attribute ℚ)
      (h : centredApp.getAttribute o p = some attr) :=
    hattrs o (by cases o <;> simp) p (lt_of_getAttribute h) attr h
  exact {
    rooted := ⟨by decide, by intro root h; cases h; rfl, by decide⟩
    ascending := by decide
    complete := by decide
    pointed := by
      intro o p attr h
      obtain ⟨hsrc, hprimary, hsecondary, _⟩ := hall o p attr h
      have hlt := lt_of_getAttribute h
      exact ⟨hsrc, hprimary.trans hlt, fun t ht => (hsecondary t ht).trans hlt⟩
    checked := fun o p attr h => (hall o p attr h).2.2.2
    acyclic := by
      intro o
      apply acyclic_of_rank id
      intro p t ht
      rw [targetsOf] at ht
      cases ha : centredApp.getAttribute o p with
      | none => simp [ha] at ht
      | some attr =>
        obtain ⟨_, hprimary, hsecondary, _⟩ := hall o p attr ha
        rw [ha, Option.elim_some] at ht
        rcases Attribute.eq_primary_or_mem_secondary ht with rfl | hsec
        · exact hprimary
        · exact hsecondary t hsec }

theorem normalizeMargins_safe_sample :
    ∃ out, centredApp.normalizeMargins centringSolver 4 = some out ∧ Like centredApp out ∧
      (∀ o p, Normalized (centredApp.getAttribute o p) (out.getAttribute o p)) ∧
      (Matches centringSolver centredApp → Matches centringSolver out) ∧
      (¬ Matches centringSolver centredApp → out = centredApp) :=
  normalizeMargins_safe centringSolver centredApp centredApp_normalizable 4 (by decide)

/-- The app matches, and the margins are gone afterwards. -/
example : (centredApp.normalizeMargins centringSolver 4).map
    (fun out => [1, 2].map fun p => (out.getAttribute .horizontal p).map fun attr =>
      (attr.valuePrimary, attr.valueSecondary)) = some [some (0, 0), some (0, 0)] := by
  decide +kernel

end App
end InferUI
