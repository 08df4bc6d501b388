import InferUI.Repair

/-!
# The rounds of a repair

When the loop of `TryFixInconsistencies` ends. It has no bound of its own: it goes on as long as
the number of views that are elsewhere changes from round to round, and it ends exactly when only
finitely many of its rounds raise that number.
-/

namespace InferUI
open Search
variable {Prob : Type}

namespace App

/-- The loop over the views that are elsewhere, for an app and its rendering. -/
def fixRound (solver : Solver) (o : Orientation) (app : App Prob) : Option (App Prob) :=
  (app.mismatching solver app.document o).foldlM
    (fixView (app.rendered solver app.document) o (app.mismatching solver app.document o)) app

/-- How many views the solver puts elsewhere. -/
def numElsewhere (solver : Solver) (o : Orientation) (app : App Prob) : Nat :=
  (app.mismatching solver app.document o).length

/-- The loop comes from one app to another in so many rounds and has not stopped on the way. -/
def Run (solver : Solver) (o : Orientation) : Nat → App Prob → App Prob → Prop
  | 0, app, app' => app' = app
  | k + 1, app, app' => app.numElsewhere solver o ≠ 0 ∧ ∃ next, app.fixRound solver o = some next ∧
    next.numElsewhere solver o ≠ app.numElsewhere solver o ∧ Run solver o k next app'

/-- Only finitely many of the rounds that are made leave more views elsewhere than there were. -/
def FewSetbacks (solver : Solver) (o : Orientation) (app : App Prob) : Prop :=
  ∃ n, ∀ k ≥ n, ∀ app₁ app₂, Run solver o k app app₁ → app₁.numElsewhere solver o ≠ 0 →
    app₁.fixRound solver o = some app₂ →
    app₂.numElsewhere solver o ≤ app₁.numElsewhere solver o

section
variable {app app' app'' : App Prob} {o : Orientation} {solver : Solver}

theorem Run.unique {k : Nat} (h : Run solver o k app app') (h' : Run solver o k app app'') :
    app' = app'' := by
  induction k generalizing app with
  | zero => exact Eq.trans h (Eq.symm h')
  | succ k ih =>
    obtain ⟨_, next, hnext, _, hrun⟩ := h
    obtain ⟨_, next', hnext', _, hrun'⟩ := h'
    obtain rfl := Option.some.inj (hnext.symm.trans hnext')
    exact ih hrun hrun'

/-- The last round of a run. -/
theorem Run.last {k : Nat} (h : Run solver o (k + 1) app app'') :
    ∃ app', Run solver o k app app' ∧ app'.numElsewhere solver o ≠ 0 ∧
      app'.fixRound solver o = some app'' ∧
      app''.numElsewhere solver o ≠ app'.numElsewhere solver o := by
  induction k generalizing app with
  | zero =>
    obtain ⟨hne, next, hnext, hcount, rfl⟩ := h
    exact ⟨app, rfl, hne, hnext, hcount⟩
  | succ k ih =>
    obtain ⟨hne, next, hnext, hcount, hrun⟩ := h
    obtain ⟨app', hrun', hlast⟩ := ih hrun
    exact ⟨app', ⟨hne, next, hnext, hcount, hrun'⟩, hlast⟩

theorem Run.prefix_of_le {k j : Nat} (hle : j ≤ k) (h : Run solver o k app app'') :
    ∃ app', Run solver o j app app' := by
  induction hle generalizing app'' with
  | refl => exact ⟨app'', h⟩
  | step _ ih =>
    obtain ⟨app', hrun, _⟩ := h.last
    exact ih hrun

/-- The rounds end exactly when only finitely many of them are setbacks. -/
theorem ends_iff_fewSetbacks :
    (∃ k, ∀ app', ¬ Run solver o k app app') ↔ FewSetbacks solver o app := by
  constructor
  · rintro ⟨n, hn⟩
    refine ⟨n, fun k hk app₁ _ hrun _ _ => ?_⟩
    obtain ⟨app', hrun'⟩ := hrun.prefix_of_le hk
    exact absurd hrun' (hn app')
  · rintro ⟨n, hn⟩
    by_contra! hall
    obtain ⟨start, hstart⟩ := hall n
    -- from then on every round lowers the number
    have falls (j : Nat) (app' : App Prob) (hrun : Run solver o (n + j) app app') :
        app'.numElsewhere solver o + j ≤ start.numElsewhere solver o := by
      induction j generalizing app' with
      | zero => rw [hstart.unique hrun]; omega
      | succ j ih =>
        obtain ⟨before, hbefore, hne, hround, hcount⟩ := hrun.last
        have hle := hn (n + j) (by omega) before app' hbefore hne hround
        have hfall := ih before hbefore
        omega
    obtain ⟨last, hlast⟩ := hall (n + (start.numElsewhere solver o + 1))
    have := falls _ last hlast
    omega

/-! ## Every round is made -/

theorem Repaired.wellMade (h : Repaired o app app') (happ : app.WellMade) : app'.WellMade := by
  apply happ.of_attributes h.like
  intro o' p
  obtain he | ⟨attr, s, he, hs, he'⟩ := h.moved_all o' p
  · exact Or.inl he
  · obtain ⟨hcenter, hprimary, _⟩ := happ.checked o' p attr he
    exact Or.inr ⟨attr, _, he, he', rfl, rfl, rfl, hcenter, hprimary, hs⟩

/-- A view that is elsewhere is not the root. -/
theorem exists_of_mem_mismatching (hroot : solver.LeavesRoot) {id : Int}
    (h : id ∈ app.mismatching solver app.document o) :
    ∃ p < app.views.length, app.idOf p = id ∧ p ≠ 0 := by
  obtain ⟨view, hview, rfl⟩ := List.mem_map.mp h
  obtain ⟨hview, hmismatch⟩ := List.mem_filter.mp hview
  obtain ⟨p, hp, rfl⟩ := List.getElem_of_mem hview
  refine ⟨p, hp, app.idOf_eq hp, ?_⟩
  rintro rfl
  have hget : app.views[0]? = some app.views[0] := List.getElem?_eq_getElem hp
  have hlocation := hroot app.document (app.viewJson app.views[0]) (by simp [document, hget])
  simp only [document, hget, Option.elim_some, viewJson, View.width, View.height] at hlocation
  rw [app.getElem_pos hp, decide_eq_true_eq] at hmismatch
  simp only [document, hget, Option.elim_some] at hmismatch
  rw [hlocation] at hmismatch
  cases o with
  | horizontal =>
    simp only [Mismatch, View.startAt, View.endAt, Location.startAt, Location.endAt] at hmismatch
    omega
  | vertical =>
    simp only [Mismatch, View.startAt, View.endAt, Location.startAt, Location.endAt] at hmismatch
    omega

theorem fixView_isSome (happ : app.WellMade) {synApp : App Prob}
    (hsyn : synApp.views.map (·.id) = app.views.map (·.id)) (ids : List Int) {p : Nat}
    (hp : p < app.views.length) (hne : p ≠ 0) :
    ∃ app', fixView synApp o ids app (app.idOf p) = some app' := by
  have hfind : app.findView (app.idOf p) = some app.views[p] := by
    rw [app.idOf_eq hp]
    exact findView_eq_some happ.rooted.distinct (List.getElem_mem hp)
  obtain ⟨renderedView, hrendered⟩ : ∃ view, synApp.findView (app.idOf p) = some view := by
    apply Option.isSome_iff_exists.mp
    rw [App.findView, List.find?_isSome]
    have hmem : app.idOf p ∈ synApp.views.map (·.id) := by
      rw [hsyn, app.idOf_eq hp]
      exact List.mem_map_of_mem (List.getElem_mem hp)
    obtain ⟨view, hview, hid⟩ := List.mem_map.mp hmem
    exact ⟨view, hview, by simpa using hid⟩
  obtain ⟨nodes, hnodes, _⟩ := referencedNodes_spec happ.rooted.distinct (happ.linked o) hp le_rfl
  have hid : app.idOf p ≠ 0 := mt (happ.rooted.idOf_eq_zero hp).mp hne
  obtain ⟨attr, hattr⟩ :=
    Option.isSome_iff_exists.mp (complete_iff.mp happ.complete p hp hid o)
  simp only [fixView, hfind, hrendered, Option.bind_eq_bind, Option.bind_some, app.getElem_pos hp,
    isIndependent, hnodes, Option.map_some]
  split
  · split
    · rw [tryFixNode, hattr]
      exact ⟨_, rfl⟩
    · exact ⟨app, rfl⟩
  · exact ⟨app, rfl⟩

theorem fixRound_isSome (hroot : solver.LeavesRoot) (happ : app.WellMade) :
    ∃ app', app.fixRound solver o = some app' ∧ Repaired o app app' := by
  have hsyn : (app.rendered solver app.document).views.map (·.id) = app.views.map (·.id) := by
    rw [views_rendered, List.map_map]
    rfl
  have hall (id : Int) (h : id ∈ app.mismatching solver app.document o) :=
    exists_of_mem_mismatching hroot h
  rw [fixRound]
  generalize app.mismatching solver app.document o = ids at hall
  have loop (rest : List Int) (hrest : rest ⊆ ids) (next : App Prob) (hnext : Repaired o app next) :
      ∃ app', rest.foldlM (fixView (app.rendered solver app.document) o ids) next = some app' := by
    induction rest generalizing next with
    | nil => exact ⟨next, rfl⟩
    | cons id rest ih =>
      obtain ⟨p, hp, rfl, hne⟩ := hall id (hrest List.mem_cons_self)
      obtain ⟨next', hfix⟩ := fixView_isSome (hnext.wellMade happ) (o := o)
        (hsyn.trans hnext.like.ids.symm) ids (hnext.like.length ▸ hp) hne
      rw [hnext.like.idOf] at hfix
      rw [List.foldlM_cons, hfix]
      exact ih (fun x hx => hrest (List.mem_cons_of_mem _ hx)) next'
        (hnext.trans (fixView_repaired hfix))
  obtain ⟨app', happ'⟩ := loop ids (List.Subset.refl _) app (.refl o app)
  exact ⟨app', happ', fixViews_repaired happ'⟩

/-! ## The loop -/

/-- The loop of one orientation, started on an app and its rendering. -/
def repairFrom (solver : Solver) (o : Orientation) (fuel : Nat) (app : App Prob) :
    Option (Option (App Prob × App Prob)) :=
  repairLoop solver o fuel app (app.rendered solver app.document)
    (app.mismatching solver app.document o)

/-- One round: the loop stops, gives up or goes on from the app the round leaves. -/
theorem repairFrom_succ (hroot : solver.LeavesRoot) (happ : app.WellMade) (fuel : Nat) :
    ∃ next : App Prob, app.fixRound solver o = some next ∧ next.WellMade ∧
      repairFrom solver o (fuel + 1) app =
        if app.numElsewhere solver o = 0 then
          some (some (app, app.rendered solver app.document))
        else if next.numElsewhere solver o = app.numElsewhere solver o then some none
        else repairFrom solver o fuel next := by
  obtain ⟨next, hnext, hrep⟩ := fixRound_isSome (o := o) hroot happ
  have hmade := hrep.wellMade happ
  refine ⟨next, hnext, hmade, ?_⟩
  have hround := hnext
  unfold fixRound at hround
  rw [repairFrom, repairLoop, hround, Option.bind_eq_bind, Option.bind_some, hmade.render solver,
    Option.bind_eq_bind, Option.bind_some, findNonMatchingViews_rendered]
  simp only [List.isEmpty_iff_length_eq_zero, numElsewhere, Option.bind_some]
  rfl

/-- The loop ends when the rounds do. -/
theorem repairFrom_ends (hroot : solver.LeavesRoot) (happ : app.WellMade) :
    (∃ fuel result, repairFrom solver o fuel app = some result) ↔ FewSetbacks solver o app := by
  rw [← ends_iff_fewSetbacks]
  constructor
  · rintro ⟨fuel, result, h⟩
    induction fuel generalizing app with
    | zero => cases h
    | succ fuel ih =>
      obtain ⟨next, hnext, hmade, he⟩ := repairFrom_succ (o := o) hroot happ fuel
      by_cases hzero : app.numElsewhere solver o = 0
      · exact ⟨1, fun app' hrun => hrun.1 hzero⟩
      rw [he, if_neg hzero] at h
      by_cases hcount : next.numElsewhere solver o = app.numElsewhere solver o
      · refine ⟨1, ?_⟩
        rintro app' ⟨_, next', hnext', hne, _⟩
        obtain rfl := Option.some.inj (hnext.symm.trans hnext')
        exact hne hcount
      · rw [if_neg hcount] at h
        obtain ⟨k, hk⟩ := ih hmade h
        refine ⟨k + 1, ?_⟩
        rintro app' ⟨_, next', hnext', _, hrun⟩
        obtain rfl := Option.some.inj (hnext.symm.trans hnext')
        exact hk app' hrun
  · rintro ⟨k, hk⟩
    induction k generalizing app with
    | zero => exact absurd rfl (hk app)
    | succ k ih =>
      by_cases hzero : app.numElsewhere solver o = 0
      · obtain ⟨_, _, _, he⟩ := repairFrom_succ (o := o) hroot happ 0
        exact ⟨1, _, he.trans (if_pos hzero)⟩
      obtain ⟨next, hnext, hmade, he⟩ := repairFrom_succ (o := o) hroot happ 0
      by_cases hcount : next.numElsewhere solver o = app.numElsewhere solver o
      · exact ⟨1, _, (he.trans (if_neg hzero)).trans (if_pos hcount)⟩
      · obtain ⟨fuel, result, h⟩ := ih hmade fun app' hrun =>
          hk app' ⟨hzero, next, hnext, hcount, hrun⟩
        obtain ⟨next', hnext', _, he'⟩ := repairFrom_succ (o := o) hroot happ fuel
        obtain rfl := Option.some.inj (hnext.symm.trans hnext')
        exact ⟨fuel + 1, result, by rw [he', if_neg hzero, if_neg hcount, h]⟩

/-- The app a finished loop leaves ends a run. -/
theorem repairFrom_run (hroot : solver.LeavesRoot) (happ : app.WellMade) {fuel : Nat}
    {synApp : App Prob} (h : repairFrom solver o fuel app = some (some (app', synApp))) :
    ∃ k, Run solver o k app app' ∧ app'.numElsewhere solver o = 0 ∧
      synApp = app'.rendered solver app'.document := by
  induction fuel generalizing app with
  | zero => cases h
  | succ fuel ih =>
    obtain ⟨next, hnext, hmade, he⟩ := repairFrom_succ (o := o) hroot happ fuel
    rw [he] at h
    by_cases hzero : app.numElsewhere solver o = 0
    · rw [if_pos hzero] at h
      obtain ⟨rfl, rfl⟩ : app = app' ∧ app.rendered solver app.document = synApp := by simpa using h
      exact ⟨0, rfl, hzero, rfl⟩
    rw [if_neg hzero] at h
    by_cases hcount : next.numElsewhere solver o = app.numElsewhere solver o
    · rw [if_pos hcount] at h
      cases h
    · rw [if_neg hcount] at h
      obtain ⟨k, hrun, hdone⟩ := ih hmade h
      exact ⟨k + 1, ⟨hzero, next, hnext, hcount, hrun⟩, hdone⟩

/-- A run that ends with no view elsewhere is what the loop does. -/
theorem Run.repairFrom (hroot : solver.LeavesRoot) (happ : app.WellMade) {k : Nat}
    (h : Run solver o k app app') (hdone : app'.numElsewhere solver o = 0) :
    repairFrom solver o (k + 1) app =
      some (some (app', app'.rendered solver app'.document)) := by
  induction k generalizing app with
  | zero =>
    obtain rfl : app' = app := h
    obtain ⟨_, _, _, he⟩ := repairFrom_succ (o := o) hroot happ 0
    exact he.trans (if_pos hdone)
  | succ k ih =>
    obtain ⟨hne, next, hnext, hcount, hrun⟩ := h
    obtain ⟨next', hnext', hmade, he⟩ := repairFrom_succ (o := o) hroot happ (k + 1)
    obtain rfl := Option.some.inj (hnext.symm.trans hnext')
    rw [he, if_neg hne, if_neg hcount, ih hmade hrun]

theorem repairLoop_mono {fuel fuel' : Nat} (hle : fuel ≤ fuel') {synApp : App Prob}
    {ids : List Int} {result : Option (App Prob × App Prob)}
    (h : repairLoop solver o fuel app synApp ids = some result) :
    repairLoop solver o fuel' app synApp ids = some result := by
  induction fuel generalizing fuel' app synApp ids with
  | zero => cases h
  | succ fuel ih =>
    obtain ⟨fuel', rfl⟩ : ∃ n, fuel' = n + 1 := ⟨fuel' - 1, by omega⟩
    rw [repairLoop] at h ⊢
    split
    · rwa [if_pos ‹_›] at h
    · rw [if_neg ‹_›] at h
      simp only [Option.bind_eq_bind, Option.bind_eq_some_iff] at h ⊢
      obtain ⟨next, hnext, syn, hsyn, cids, hcids, h⟩ := h
      refine ⟨next, hnext, syn, hsyn, cids, hcids, ?_⟩
      split
      · rwa [if_pos ‹_›] at h
      · rw [if_neg ‹_›] at h
        exact ih (by omega) h

theorem repairAll_mono {fuel fuel' : Nat} (hle : fuel ≤ fuel') {orientations : List Orientation}
    {synApp : App Prob} {result : Option (App Prob)}
    (h : repairAll solver fuel orientations app synApp = some result) :
    repairAll solver fuel' orientations app synApp = some result := by
  induction orientations generalizing app synApp with
  | nil => exact h
  | cons o orientations ih =>
    rw [repairAll] at h ⊢
    simp only [Option.bind_eq_bind, Option.bind_eq_some_iff] at h ⊢
    obtain ⟨ids, hids, result', hloop, h⟩ := h
    refine ⟨ids, hids, result', repairLoop_mono hle hloop, ?_⟩
    cases result' with
    | none => exact h
    | some found => exact ih h

/-- The orientations one after the other: the next one starts where no view is elsewhere. -/
theorem repairAll_ends (hroot : solver.LeavesRoot) (happ : app.WellMade)
    {orientations : List Orientation} :
    (∃ fuel result, repairAll solver fuel (o :: orientations) app
        (app.rendered solver app.document) = some result) ↔
      FewSetbacks solver o app ∧ ∀ k app₁, Run solver o k app app₁ →
        app₁.numElsewhere solver o = 0 → ∃ fuel result, repairAll solver fuel orientations app₁
          (app₁.rendered solver app₁.document) = some result := by
  have hall (fuel : Nat) : repairAll solver fuel (o :: orientations) app
      (app.rendered solver app.document) = (repairFrom solver o fuel app).bind fun found =>
        found.elim (some none) fun next => repairAll solver fuel orientations next.1 next.2 := by
    rw [repairAll, findNonMatchingViews_rendered]
    simp only [Option.bind_eq_bind, Option.bind_some, repairFrom]
    refine Option.bind_congr fun found _ => ?_
    cases found <;> rfl
  constructor
  · rintro ⟨fuel, result, h⟩
    rw [hall, Option.bind_eq_some_iff] at h
    obtain ⟨found, hfound, h⟩ := h
    refine ⟨(repairFrom_ends hroot happ).mp ⟨fuel, found, hfound⟩, fun k app₁ hrun hdone => ?_⟩
    -- the loop has one answer
    have hlong := repairLoop_mono (Nat.le_add_right fuel (k + 1)) hfound
    have hlong' := repairLoop_mono (Nat.le_add_left (k + 1) fuel)
      (hrun.repairFrom hroot happ hdone)
    obtain rfl := Option.some.inj (hlong.symm.trans hlong')
    exact ⟨fuel, result, h⟩
  · rintro ⟨hfew, hrest⟩
    obtain ⟨fuel, found, hfound⟩ := (repairFrom_ends hroot happ).mpr hfew
    cases found with
    | none => exact ⟨fuel, none, by rw [hall, hfound, Option.bind_some, Option.elim_none]⟩
    | some found =>
      obtain ⟨app₁, synApp₁⟩ := found
      obtain ⟨k, hrun, hdone, rfl⟩ := repairFrom_run hroot happ hfound
      obtain ⟨fuel', result, h⟩ := hrest k app₁ hrun hdone
      refine ⟨max fuel fuel', result, ?_⟩
      have hlong : repairFrom solver o (max fuel fuel') app = _ :=
        repairLoop_mono (le_max_left fuel fuel') hfound
      rw [hall, hlong, Option.bind_some]
      exact repairAll_mono (le_max_right fuel fuel') h

theorem Run.wellMade (happ : app.WellMade) {k : Nat} (h : Run solver o k app app') :
    app'.WellMade := by
  induction k generalizing app with
  | zero =>
    obtain rfl : app' = app := h
    exact happ
  | succ k ih =>
    obtain ⟨_, next, hnext, _, hrun⟩ := h
    exact ih ((fixViews_repaired hnext).wellMade happ) hrun

theorem repairAll_wellMade (happ : app.WellMade) {fuel : Nat} {orientations : List Orientation}
    {synApp : App Prob} (hrender : app.render solver = some synApp)
    (h : repairAll solver fuel orientations app synApp = some (some app')) : app'.WellMade := by
  induction orientations generalizing app synApp with
  | nil =>
    obtain rfl : app = app' := by simpa [repairAll] using h
    exact happ
  | cons o orientations ih =>
    rw [repairAll, Option.bind_eq_bind, Option.bind_eq_some_iff] at h
    obtain ⟨ids, hids, h⟩ := h
    obtain ⟨_ | ⟨app₁, synApp₁⟩, hloop, h⟩ := Option.bind_eq_some_iff.mp h
    · cases h
    · obtain ⟨hrep, hrender₁, _⟩ := repairLoop_repaired hrender hids hloop
      exact ih (hrep.wellMade happ) hrender₁ h

/-- Where no view is elsewhere no round is made. -/
theorem Run.eq_of_done (hdone : app.numElsewhere solver o = 0) {k : Nat}
    (h : Run solver o k app app') : k = 0 ∧ app' = app := by
  cases k with
  | zero => exact ⟨rfl, h⟩
  | succ k => exact absurd hdone h.1

theorem fewSetbacks_of_done (hdone : app.numElsewhere solver o = 0) : FewSetbacks solver o app := by
  refine ⟨0, fun k _ app₁ _ hrun hne _ => ?_⟩
  obtain ⟨_, rfl⟩ := hrun.eq_of_done hdone
  exact absurd hdone hne

/-- Both orientations, the second from where the first one ends. -/
theorem repairBoth_ends (hroot : solver.LeavesRoot) (hbase : base.WellMade) :
    (∃ fuel result, repairAll solver fuel [.horizontal, .vertical] base
      (base.rendered solver base.document) = some result) ↔
      FewSetbacks solver .horizontal base ∧ ∀ k app₁, Run solver .horizontal k base app₁ →
        app₁.numElsewhere solver .horizontal = 0 → FewSetbacks solver .vertical app₁ := by
  rw [repairAll_ends hroot hbase]
  apply and_congr_right
  intro _
  apply forall₂_congr
  intro k app₁
  apply imp_congr_right
  intro hrun
  rw [repairAll_ends hroot (hrun.wellMade hbase)]
  apply imp_congr_right
  intro _
  exact and_iff_left fun _ app₂ _ _ => ⟨0, some app₂, rfl⟩

/-- A repair returns exactly when, in each orientation it comes to, only finitely many of its
rounds leave more views elsewhere than there were. -/
theorem repair_returns_iff (solver : Solver) (hroot : solver.LeavesRoot) (app base : App Prob)
    (happ : app.WellMade) (hcopy : app.copy = some base) :
    (∃ fuel result, app.tryFixInconsistencies solver fuel = some result) ↔
      FewSetbacks solver .horizontal base ∧ ∀ k app₁, Run solver .horizontal k base app₁ →
        app₁.numElsewhere solver .horizontal = 0 → FewSetbacks solver .vertical app₁ := by
  obtain ⟨hlike, hattrs, _⟩ := copy_eq_some happ.rooted.distinct happ.pointed hcopy
  have hbase : base.WellMade := happ.of_attributes hlike fun o p => Or.inl (hattrs o p)
  have hall := repairBoth_ends hroot hbase
  rw [← hall]
  simp only [tryFixInconsistencies, hcopy, hbase.render solver, Option.bind_eq_bind,
    Option.bind_some]
  by_cases hmatch : appMatch base (base.rendered solver base.document) = true
  · simp only [if_pos hmatch]
    have hnone (o : Orientation) : base.numElsewhere solver o = 0 :=
      List.length_eq_zero_iff.mpr ((appMatch_rendered solver base base.document).mp hmatch o)
    refine iff_of_true ⟨0, _, rfl⟩ (hall.mpr ⟨fewSetbacks_of_done (hnone _), ?_⟩)
    intro k app₁ hrun _
    obtain ⟨_, rfl⟩ := hrun.eq_of_done (hnone _)
    exact fewSetbacks_of_done (hnone _)
  · simp only [if_neg hmatch]
    constructor
    · rintro ⟨fuel, result, h⟩
      obtain ⟨found, hfound, _⟩ := Option.bind_eq_some_iff.mp h
      exact ⟨fuel, found, hfound⟩
    · rintro ⟨fuel, found, hfound⟩
      cases found with
      | none => exact ⟨fuel, (false, app), by rw [hfound]; rfl⟩
      | some fixed =>
        have hmade := repairAll_wellMade hbase (hbase.render solver) hfound
        obtain ⟨out, hout, _⟩ := hmade.copy
        exact ⟨fuel, (true, out), by
          simp only [hfound, Option.bind_some, hout]
          rfl⟩

end

/-! ## Margins that alternate -/

theorem applyAttribute_applyAttribute (app : App Prob) (o : Orientation) (p : Nat)
    (attr attr' : Attribute Prob) :
    (app.applyAttribute o p attr).applyAttribute o p attr' = app.applyAttribute o p attr' := by
  rw [App.applyAttribute, App.applyAttribute, App.applyAttribute, App.mk.injEq,
    List.modify_modify_eq]
  congr 1
  funext view
  simp [View.applyAttribute]

/-- The copy of an app that fixes no size is the app. -/
theorem WellMade.copy_eq {app : App Prob} (h : app.WellMade)
    (hsize : ∀ view ∈ app.views, view.viewSize = fun _ => none) : app.copy = some app := by
  have hviews : app.views.mapM app.copyView = some app.views := by
    rw [mapM_eq_some_iff]
    apply List.map_congr_left
    intro view hview
    obtain ⟨p, hp⟩ := List.mem_iff_getElem?.mp hview
    rw [copyView_eq_some h.rooted.distinct h.pointed hp]
    refine ⟨fun o attr hattr => h.checked o p attr (by simp [getAttribute, hp, hattr]), ?_⟩
    rw [← hsize view hview]
  rw [App.copy, hviews, Option.map_some, Option.some.injEq, App.mk.injEq]
  apply List.ext_getElem?
  intro p
  rw [views_ofViews]
  cases hp : app.views[p]? with
  | none => rfl
  | some view => simp [← app.pos_eq p view hp]

/-- A view whose margin on the right is 1 or 2, and a view beside it. -/
def alternatingApp (margin : Int) : App ℚ :=
  ((((App.ofViews [⟨0, 0, 100, 100, 0, 0, fun _ => none, fun _ => none⟩,
    ⟨40, 40, 60, 60, 1, 0, fun _ => none, fun _ => none⟩,
    ⟨10, 40, 30, 60, 2, 0, fun _ => none, fun _ => none⟩]).applyAttribute .vertical 1
      (.ofCenter .t2txb2b .fixed 0 0 1 0 0)).applyAttribute .vertical 2
      (.ofCenter .t2txb2b .fixed 0 0 2 0 0)).applyAttribute .horizontal 2
      (.ofRelational .l2l .fixed 10 2 0)).applyAttribute .horizontal 1
      (.ofCenter .l2lxr2r .fixed 0 margin 1 0 0)

/-- A margin of 1 puts the first view a pixel too far to the right, any other one a pixel too far
to the left and the second view elsewhere. -/
def alternatingSolver : Solver := rowSolver fun attrs p =>
  if (attrs[1]?.join).elim 0 (·.valueSecondary) = 1 then if p = 1 then (41, 61) else (10, 30)
  else if p = 1 then (39, 59) else (15, 35)

theorem alternatingApp_wellMade : (alternatingApp 1).WellMade := by
  have hlength : (alternatingApp 1).views.length = 3 := rfl
  have hattrs : ∀ o ∈ [Orientation.horizontal, .vertical], ∀ p < 3,
      ∀ attr ∈ (alternatingApp 1).getAttribute o p, attr.src = p ∧ attr.tgtPrimary = 0 ∧
        (∀ t ∈ attr.tgtSecondary, t = 0) ∧ attr.Checked := by
    decide +kernel
  have hall (o : Orientation) (p : Nat) (attr : Attribute ℚ)
      (h : (alternatingApp 1).getAttribute o p = some attr) :=
    hattrs o (by cases o <;> simp) p (lt_of_getAttribute h) attr h
  exact {
    rooted := ⟨by decide, by intro root h; cases h; rfl, by decide⟩
    complete := by decide
    pointed := by
      intro o p attr h
      obtain ⟨hsrc, hprimary, hsecondary, _⟩ := hall o p attr h
      refine ⟨hsrc, by omega, fun t ht => ?_⟩
      have := hsecondary t ht
      omega
    checked := fun o p attr h => (hall o p attr h).2.2.2 }

theorem alternatingApp_copy : (alternatingApp 1).copy = some (alternatingApp 1) := by
  apply alternatingApp_wellMade.copy_eq
  intro view hview
  have hnone : ∀ view ∈ (alternatingApp 1).views, ∀ o ∈ [Orientation.horizontal, .vertical],
      view.viewSize o = none := by decide
  funext o
  exact hnone view hview o (by cases o <;> simp)

theorem alternatingApp_update (margin margin' : Int) :
    (alternatingApp margin).applyAttribute .horizontal 1
      (.ofCenter .l2lxr2r .fixed 0 margin' 1 0 0) = alternatingApp margin' :=
  applyAttribute_applyAttribute _ _ _ _ _

theorem repair_returns_iff_sample :
    (∃ fuel result,
      (alternatingApp 1).tryFixInconsistencies alternatingSolver fuel = some result) ↔
      FewSetbacks alternatingSolver .horizontal (alternatingApp 1) ∧ ∀ k app₁,
        Run alternatingSolver .horizontal k (alternatingApp 1) app₁ →
        app₁.numElsewhere alternatingSolver .horizontal = 0 →
        FewSetbacks alternatingSolver .vertical app₁ :=
  repair_returns_iff alternatingSolver (rowSolver_leavesRoot _) _ _ alternatingApp_wellMade
    alternatingApp_copy

/-- The margin becomes 2 in one round and 1 again in the next. -/
theorem alternating_rounds :
    (alternatingApp 1).fixRound alternatingSolver .horizontal = some (alternatingApp 2) ∧
      (alternatingApp 2).fixRound alternatingSolver .horizontal = some (alternatingApp 1) := by
  constructor
  · rw [← alternatingApp_update 1 2]
    rfl
  · rw [← alternatingApp_update 2 1]
    rfl

theorem alternating_none (fuel : Nat) :
    repairFrom alternatingSolver .horizontal fuel (alternatingApp 1) = none ∧
      repairFrom alternatingSolver .horizontal fuel (alternatingApp 2) = none := by
  have hroot : alternatingSolver.LeavesRoot := rowSolver_leavesRoot _
  obtain ⟨hround₁, hround₂⟩ := alternating_rounds
  have hcount₁ : (alternatingApp 1).numElsewhere alternatingSolver .horizontal = 1 := by
    decide +kernel
  have hcount₂ : (alternatingApp 2).numElsewhere alternatingSolver .horizontal = 2 := by
    decide +kernel
  have hmade₁ := alternatingApp_wellMade
  have hmade₂ : (alternatingApp 2).WellMade := by
    rw [← alternatingApp_update 1 2]
    exact hmade₁.applyAttribute rfl rfl rfl rfl (by decide)
  induction fuel with
  | zero => exact ⟨rfl, rfl⟩
  | succ fuel ih =>
    constructor
    · obtain ⟨next, hnext, _, he⟩ := repairFrom_succ (o := .horizontal) hroot hmade₁ fuel
      obtain rfl := Option.some.inj (hround₁.symm.trans hnext)
      rw [he, hcount₁, hcount₂]
      exact ih.2
    · obtain ⟨next, hnext, _, he⟩ := repairFrom_succ (o := .horizontal) hroot hmade₂ fuel
      obtain rfl := Option.some.inj (hround₂.symm.trans hnext)
      rw [he, hcount₁, hcount₂]
      exact ih.1

/-- The rounds go on for ever, with one view elsewhere and two in turn. -/
theorem repair_never_returns : (alternatingApp 1).WellMade ∧ alternatingSolver.LeavesRoot ∧
    ∀ fuel, (alternatingApp 1).tryFixInconsistencies alternatingSolver fuel = none := by
  have hmade := alternatingApp_wellMade
  have hcopy := alternatingApp_copy
  have hmatch : appMatch (alternatingApp 1) ((alternatingApp 1).rendered alternatingSolver
      (alternatingApp 1).document) = false := by
    decide +kernel
  refine ⟨hmade, rowSolver_leavesRoot _, fun fuel => ?_⟩
  have hnone := (alternating_none fuel).1
  unfold repairFrom at hnone
  simp only [tryFixInconsistencies, hcopy, hmade.render, Option.bind_eq_bind, Option.bind_some,
    hmatch, Bool.false_eq_true, if_false, repairAll, findNonMatchingViews_rendered, hnone,
    Option.bind_none]

end App
end InferUI
