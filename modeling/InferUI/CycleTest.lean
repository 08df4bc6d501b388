import InferUI.Graph

/-!
# The cycle test

`ReferencedNodes` collects what a view depends on and `IsCircularRelation` looks for the view
among what the targets of an attribute depend on. It sees the old attribute of the view, which
changes nothing: a way from a target back to the view has come back before it uses that one. So
an app of which no view is circular has no cycle at all, which `ForEachValidApp` relies on.
-/

namespace InferUI
open Search
variable {Prob : Type}

/-- An attribute refers to views among the first `n`, a centering one to two of them. -/
def Attribute.TargetsIn (attr : Attribute Prob) (n : Nat) : Prop :=
  attr.tgtPrimary < n ∧
    (attr.type.isRelationalAnchor = false → ∃ r < n, attr.tgtSecondary = some r)

namespace App
variable {app : App Prob} {o : Orientation}

/-- The test is true exactly when the attribute would close a cycle through the view. -/
theorem isCircularRelation_cycle (hids : (app.views.map (·.id)).Nodup) (h : app.Linked o)
    {fuel p : Nat} {attr : Attribute Prob} (hp : p < app.views.length)
    (hattr : attr.TargetsIn app.views.length) (hfuel : app.views.length ≤ fuel) :
    ∃ circular, app.isCircularRelation o fuel p attr = some circular ∧
      (circular = true ↔
        Relation.TransGen (Edge ((app.applyAttribute o p attr).targetsOf o)) p p) := by
  obtain ⟨circular, hcircular, hiff⟩ := isCircularRelation_spec hids h hp hattr.1 hattr.2 hfuel
  refine ⟨circular, hcircular, ?_⟩
  rw [hiff, targetsOf_applyAttribute hp, cycle_update_iff]

/-- When no view is circular with its own attribute, the graph has no cycle. -/
theorem acyclic_of_not_circular (hids : (app.views.map (·.id)).Nodup) (h : app.Linked o)
    {fuel : Nat} (hfuel : app.views.length ≤ fuel)
    (hnone : ∀ p attr, p < app.views.length → app.getAttribute o p = some attr →
      app.isCircularRelation o fuel p attr = some false) : Acyclic (app.targetsOf o) := by
  apply acyclic_of_not_reaches
  intro p t ht hback
  unfold targetsOf at ht
  cases hattr : app.getAttribute o p with
  | none =>
    rw [hattr] at ht
    cases ht
  | some attr =>
    rw [hattr, Option.elim_some] at ht
    have hp : p < app.views.length := by
      obtain ⟨view, hview, _⟩ := Option.bind_eq_some_iff.mp hattr
      exact (List.getElem?_eq_some_iff.mp hview).1
    obtain ⟨hprimary, hcenter⟩ := h p attr hattr
    obtain ⟨circular, hcircular, hiff⟩ := isCircularRelation_spec hids h hp hprimary hcenter hfuel
    rw [hnone p attr hp hattr, Option.some.injEq] at hcircular
    have htrue := hiff.mpr ⟨t, ht, hback⟩
    rw [← hcircular] at htrue
    cases htrue

/-- On any graph, with as much depth as there are views: the search ends and returns the ids of
what is reached, the test is that for a cycle through the view, and tests of all views that come
out false leave no cycle. -/
theorem cycle_test_is_reachability (hids : (app.views.map (·.id)).Nodup) (h : app.Linked o)
    {fuel : Nat} (hfuel : app.views.length ≤ fuel) :
    (∀ p < app.views.length, ∃ nodes, app.referencedNodes o fuel p = some nodes ∧
      ∀ id, id ∈ nodes ↔ ∃ q < app.views.length, Reaches (app.targetsOf o) p q ∧
        app.idOf q = id) ∧
    (∀ p < app.views.length, ∀ attr : Attribute Prob, attr.TargetsIn app.views.length →
      ∃ circular, app.isCircularRelation o fuel p attr = some circular ∧
        (circular = true ↔
          Relation.TransGen (Edge ((app.applyAttribute o p attr).targetsOf o)) p p)) ∧
    ((∀ p attr, p < app.views.length → app.getAttribute o p = some attr →
      app.isCircularRelation o fuel p attr = some false) → Acyclic (app.targetsOf o)) := by
  refine ⟨?_, ?_, acyclic_of_not_circular hids h hfuel⟩
  · intro p hp
    exact referencedNodes_ids hids h hp hfuel
  · intro p hp attr hattr
    exact isCircularRelation_cycle hids h hp hattr hfuel

/-- Two views that are tied to each other. -/
def loopApp : App ℚ := .ofViews [⟨0, 0, 100, 100, 0, 0, fun _ => none, fun _ => none⟩,
  ⟨10, 20, 30, 60, 1, 0, fun _ => some (.ofRelational .l2l .fixed 0 1 2), fun _ => none⟩,
  ⟨10, 20, 30, 60, 2, 0, fun _ => some (.ofRelational .l2l .fixed 0 2 1), fun _ => none⟩]

theorem loopApp_linked : loopApp.Linked .horizontal := by
  intro p attr hattr
  match p with
  | 0 => cases hattr
  | 1 | 2 =>
    cases hattr
    exact ⟨by decide, fun h => by cases h⟩
  | p + 3 => cases hattr

theorem cycle_test_loopApp :
    ∃ circular, loopApp.isCircularRelation .horizontal 3 1 (.ofRelational .l2l .fixed 0 1 0) =
      some circular ∧ (circular = true ↔ Relation.TransGen (Edge ((loopApp.applyAttribute
        .horizontal 1 (.ofRelational .l2l .fixed 0 1 0)).targetsOf .horizontal)) 1 1) := by
  refine (cycle_test_is_reachability (by decide) loopApp_linked le_rfl).2.1 1 (by decide) _ ?_
  exact ⟨by decide, fun h => by cases h⟩

/-! ## The filter of `ForEachValidApp` -/

/-- The views of an orientation, then those of the next one. -/
def firstCircular (app : App Prob) (fuel : Nat) : List (Orientation × View Prob) → Option Bool
  | [] => some false
  | (o, view) :: rest =>
    if view.isContentFrame then firstCircular app fuel rest
    else (view.attributes o).bind fun attr =>
      (app.isCircularRelation o fuel view.pos attr).bind fun circular =>
        if circular then some true else firstCircular app fuel rest

/-- Whether the app is left out for a circular relation; `none` when `at` finds no attribute. -/
def hasCircularRelation (app : App Prob) (fuel : Nat) : Option Bool :=
  app.firstCircular fuel (app.views.map (.horizontal, ·) ++ app.views.map (.vertical, ·))

theorem firstCircular_false {fuel : Nat} {list : List (Orientation × View Prob)}
    (h : app.firstCircular fuel list = some false) :
    ∀ entry ∈ list, entry.2.isContentFrame = false →
      ∀ attr, entry.2.attributes entry.1 = some attr →
        app.isCircularRelation entry.1 fuel entry.2.pos attr = some false := by
  induction list with
  | nil => simp
  | cons first rest ih =>
    rw [firstCircular] at h
    intro entry hentry hframe attr hattr
    split at h
    · rename_i hfirst
      obtain rfl | hentry := List.mem_cons.mp hentry
      · rw [hframe] at hfirst
        cases hfirst
      · exact ih h entry hentry hframe attr hattr
    · obtain ⟨attr', hattr', h⟩ := Option.bind_eq_some_iff.mp h
      obtain ⟨circular, hcircular, h⟩ := Option.bind_eq_some_iff.mp h
      split at h
      · cases h
      · rename_i hnot
        obtain rfl | hentry := List.mem_cons.mp hentry
        · obtain rfl := Option.some.inj (hattr.symm.trans hattr')
          rw [hcircular]
          simpa using hnot
        · exact ih h entry hentry hframe attr hattr

/-- An app that passes the filter has no cycle in either orientation. -/
theorem hasCircularRelation_false (hids : (app.views.map (·.id)).Nodup)
    (h : ∀ o, app.Linked o) (hfree : ∀ view ∈ app.views, view.isContentFrame = true →
      ∀ o, view.attributes o = none)
    {fuel : Nat} (hfuel : app.views.length ≤ fuel)
    (hpass : app.hasCircularRelation fuel = some false) (o : Orientation) :
    Acyclic (app.targetsOf o) := by
  apply acyclic_of_not_circular hids (h o) hfuel
  intro p attr hp hattr
  obtain ⟨view, hview, hattr⟩ := Option.bind_eq_some_iff.mp hattr
  have hmem := List.mem_of_getElem? hview
  have hframe : view.isContentFrame = false := by
    by_contra hc
    rw [hfree view hmem (by simpa using hc) o] at hattr
    cases hattr
  have hentry : (o, view) ∈
      app.views.map (Orientation.horizontal, ·) ++ app.views.map (Orientation.vertical, ·) := by
    cases o <;> simp [hmem]
  have hcircular := firstCircular_false hpass (o, view) hentry hframe attr hattr
  rwa [app.pos_eq p view hview] at hcircular

end App
end InferUI
