import InferUI.Extraction
import InferUI.SingleQuery

/-!
# Synthesized layouts are complete, acyclic and anchored

The anchor variable of a view is above those of its targets, so it ranks the graph of the
layout that is written, and every path through the layout ends at the content frame.
-/

namespace InferUI
open Store Search
variable {Prob K : Type} {app : App Prob}

/-- The vectors `constraints` after the candidates of an orientation were added. -/
def selectionNames {o : Orientation} (c : CandidateConstraints app o) : Nat → List ConstraintData :=
  ((Encoder.ofCandidates c).addConstraintExprs (convertViews app o 0)).constraints

theorem selectionNames_eq {o : Orientation} (c : CandidateConstraints app o) {p : Nat}
    (hp : p ≠ 0) (hlt : p < app.views.length) :
    selectionNames c p = (c.getAttributes p).map (attributeName (convertViews app o 0)) := by
  rw [selectionNames, addConstraintExprs_constraints _ hp hlt, Encoder.ofCandidates,
    List.nil_append]

variable [Field K] [LinearOrder K] [FloorRing K]

/-- The first selected constraint of a view is that of its chosen candidate. -/
theorem Chosen.find {o : Orientation} {c : CandidateConstraints app o} {v : Assignment K} {p : Nat}
    {attr : Attribute Prob} (h : Chosen c v p attr) (hp : p ≠ 0) (hlt : p < app.views.length) :
    (selectionNames c p).find? v.select =
      some ⟨attr.type, attr.viewSize, o, p, attr.tgtPrimary,
        attr.tgtSecondary.elim (-1) fun r => (r : Int)⟩ := by
  have hname := attributeName_eq (d := 0) rfl h.proper hlt
  have hfind : (c.getAttributes p).find?
      (v.select ∘ attributeName (convertViews app o 0)) = some attr := by
    rw [← List.head?_filter]
    exact congrArg List.head? h.only
  rw [selectionNames_eq c hp hlt, List.find?_map, hfind, Option.map_some, hname]

variable [Zero Prob]

/-- A candidate as it is written for its view: with the margins and the bias of a model. -/
def Attribute.written (attr : Attribute Prob) (view : Z3View) (v : Assignment K) : Attribute Prob :=
  let margins := view.writtenMargins v attr.type attr.viewSize
  { attr with
    valuePrimary := margins.1
    valueSecondary := margins.2
    prob := 0
    bias := view.getBias v }

/-- The constraint of a candidate is read back from its name. -/
theorem assignedAttribute_eq {o : Orientation} {p : Nat} {attr : Attribute Prob}
    (h : attr.Proper app.views.length o p) (hlt : p < app.views.length) (v : Assignment K) :
    (findView (convertViews app o 0) p).assignedAttribute v
        (attributeName (convertViews app o 0) attr) =
      attr.written (findView (convertViews app o 0) p) v := by
  have hsecondary : (if attr.type.isCenterAnchor = true then
      some (attr.tgtSecondary.elim (-1) fun r => (r : Int)).toNat else none) = attr.tgtSecondary := by
    cases hrel : attr.type.isRelationalAnchor with
    | true =>
      obtain ⟨hnone, _⟩ := h.relational hrel
      simp [ConstraintType.isCenterAnchor, hrel, hnone]
    | false =>
      obtain ⟨r, _, hsome⟩ := h.center hrel
      simp [ConstraintType.isCenterAnchor, hrel, hsome]
  rw [attributeName_eq rfl h hlt, Z3View.assignedAttribute, findView_pos hlt]
  simp only [hsecondary, Attribute.written, h.own]

theorem Chosen.assigned_eq {o : Orientation} {c : CandidateConstraints app o} {v : Assignment K}
    {p : Nat} {attr : Attribute Prob} (h : Chosen c v p attr) (hp : p ≠ 0)
    (hlt : p < app.views.length) :
    assigned (convertViews app o 0) (selectionNames c) v p =
      some (attr.written (findView (convertViews app o 0) p) v) := by
  rw [assigned, h.find hp hlt, Option.map_some, ← attributeName_eq rfl h.proper hlt,
    assignedAttribute_eq h.proper hlt]

/-- The layout after the loops of both orientations, from a model for each. -/
def writeLayout (c : (o : Orientation) → CandidateConstraints app o)
    (v : Orientation → Assignment K) : App Prob :=
  assignModels (convertViews app .vertical 0) (selectionNames (c .vertical)) .vertical
    (v .vertical)
    (assignModels (convertViews app .horizontal 0) (selectionNames (c .horizontal)) .horizontal
      (v .horizontal) app)

section
variable (c : (o : Orientation) → CandidateConstraints app o) (v : Orientation → Assignment K)

theorem length_writeLayout : (writeLayout c v).views.length = app.views.length := by
  rw [writeLayout, length_assignModels, length_assignModels]

theorem idOf_writeLayout (p : Nat) : (writeLayout c v).idOf p = app.idOf p := by
  rw [writeLayout, idOf_assignModels, idOf_assignModels]

theorem getAttribute_writeLayout (o : Orientation) (p : Nat) :
    (writeLayout c v).getAttribute o p = if p ≠ 0 ∧ p < app.views.length then
      (assigned (convertViews app o 0) (selectionNames (c o)) (v o) p).or (app.getAttribute o p)
    else app.getAttribute o p := by
  rw [writeLayout, getAttribute_assignModels (length_assignModels ..),
    getAttribute_assignModels rfl]
  cases o <;> simp

variable {c v} {printed : Prob → K} {opt : Bool}

theorem writeLayout_rooted (hroot : app.Rooted) : (writeLayout c v).Rooted :=
  hroot.of_ids (length_writeLayout c v) (idOf_writeLayout c v)

theorem writeLayout_rootFree (hfree : app.RootFree) : (writeLayout c v).RootFree := by
  intro o
  rw [getAttribute_writeLayout, if_neg (by simp), hfree o]

variable (h : ∀ o, Models (selectionAssertions printed (c o) opt) (v o))
include h

/-- Every non-root view gets its one selected candidate. -/
theorem exists_written (o : Orientation) {p : Nat} (hp : p ≠ 0) (hlt : p < app.views.length) :
    ∃ attr, Chosen (c o) (v o) p attr ∧ (writeLayout c v).getAttribute o p =
      some (attr.written (findView (convertViews app o 0) p) (v o)) := by
  obtain ⟨attr, chosen⟩ := exists_chosen (h o) hp hlt
  refine ⟨attr, chosen, ?_⟩
  rw [getAttribute_writeLayout, if_pos ⟨hp, hlt⟩, chosen.assigned_eq hp hlt, Option.some_or]

theorem writeLayout_wired (hfree : app.RootFree) (o : Orientation) : (writeLayout c v).Wired o := by
  intro p attr ha
  rw [length_writeLayout]
  by_cases hp : p ≠ 0 ∧ p < app.views.length
  · obtain ⟨chosenAttr, chosen, hwritten⟩ := exists_written h o hp.1 hp.2
    obtain rfl := Option.some.inj (hwritten.symm.trans ha)
    have := chosen.proper
    exact ⟨this.own, this.orientation, this.primary, this.relational, this.center⟩
  · rw [getAttribute_writeLayout, if_neg hp] at ha
    by_cases h0 : p = 0
    · subst h0
      rw [hfree o] at ha
      cases ha
    · rw [app.getAttribute_of_length_le (by omega)] at ha
      cases ha

/-- The anchor variables rank the graph that is written. -/
theorem writeLayout_acyclic (hfree : app.RootFree) (o : Orientation) :
    Acyclic ((writeLayout c v).targetsOf o) := by
  apply acyclic_of_rank fun p => ((v o).anchor (uniqueId p o)).toNat
  intro p t ht
  have hattr : (writeLayout c v).getAttribute o p ≠ none := by
    intro hnone
    simp [App.targetsOf, hnone] at ht
  have hlt : p < app.views.length := by
    by_contra hge
    exact hattr (App.getAttribute_of_length_le _ (by rw [length_writeLayout]; omega) o)
  have hp : p ≠ 0 := by
    rintro rfl
    exact hattr (writeLayout_rootFree hfree o)
  obtain ⟨attr, chosen, hwritten⟩ := exists_written h o hp hlt
  rw [App.targetsOf, hwritten] at ht
  exact chosen.anchor_lt t ht

theorem writeLayout_anchoredTo (hfree : app.RootFree) (o : Orientation) {p : Nat}
    (hlt : p < app.views.length) : (writeLayout c v).AnchoredTo o p := by
  apply grounded_of_acyclic (writeLayout_acyclic h hfree o)
    (App.targetsOf_closed (writeLayout_wired h hfree o).linked)
  · intro q hq
    rw [Finset.mem_range, length_writeLayout] at hq
    by_cases hq0 : q = 0
    · exact Or.inl hq0
    · obtain ⟨attr, _, hwritten⟩ := exists_written h o hq0 hq
      refine Or.inr (List.ne_nil_of_mem (a := attr.tgtPrimary) ?_)
      rw [App.targetsOf, hwritten]
      exact Attribute.primary_mem_targets _
  · rwa [Finset.mem_range, length_writeLayout]

/-- In every model one constraint of each non-root view is selected, and the layout written from
it is complete, acyclic and anchored in both orientations; the searches of the code return, with
fuel for every view. -/
theorem written_layout_anchored (hroot : app.Rooted) (hfree : app.RootFree) (o : Orientation) :
    (∀ p, p ≠ 0 → p < app.views.length →
      exactlyOne (v o).select (selectionNames (c o) p) = true ∧
      ∃ data ∈ selectionNames (c o) p, (v o).select data = true ∧
        (writeLayout c v).getAttribute o p =
          some ((findView (convertViews app o 0) p).assignedAttribute (v o) data)) ∧
    Acyclic ((writeLayout c v).targetsOf o) ∧
    ∀ p, p ≠ 0 → p < app.views.length → ∀ fuel, app.views.length ≤ fuel →
      (∃ attr, (writeLayout c v).getAttribute o p = some attr ∧
        (writeLayout c v).isCircularRelation o fuel p attr = some false) ∧
      (writeLayout c v).isAnchored o fuel [] p = some true := by
  have hrooted := writeLayout_rooted (c := c) (v := v) hroot
  have hwired := writeLayout_wired h hfree o
  have hacyclic := writeLayout_acyclic h hfree o
  refine ⟨?_, hacyclic, ?_⟩
  · intro p hp hlt
    obtain ⟨attr, chosen, hwritten⟩ := exists_written h o hp hlt
    have hone : exactlyOne (v o).select (selectionNames (c o) p) = true := by
      rw [selectionNames_eq _ hp hlt, exactlyOne_map, exactlyOne_iff]
      exact ⟨attr, chosen.only⟩
    have hfind := chosen.find hp hlt
    refine ⟨hone, _, List.mem_of_find?_eq_some hfind, List.find?_some hfind, ?_⟩
    rw [hwritten, ← chosen.assigned_eq hp hlt, assigned, hfind, Option.map_some]
  · intro p hp hlt fuel hfuel
    rw [← length_writeLayout c v] at hlt hfuel
    obtain ⟨anchored, hanchored, hiff⟩ := App.isAnchored_spec hrooted hwired hacyclic hlt hfuel
    rw [length_writeLayout] at hlt
    obtain rfl := hiff.mpr (writeLayout_anchoredTo h hfree o hlt)
    refine ⟨?_, hanchored⟩
    obtain ⟨attr, chosen, hwritten⟩ := exists_written h o hp hlt
    rw [← length_writeLayout c v] at hlt
    obtain ⟨circular, hcircular, hreach⟩ := App.isCircularRelation_spec hrooted.distinct
      hwired.linked hlt (hwired p _ hwritten).primary (hwired p _ hwritten).center hfuel
    refine ⟨_, hwritten, ?_⟩
    have hnot : ¬ circular = true := by
      rw [hreach]
      rintro ⟨t, ht, hback⟩
      have hedge : t ∈ (writeLayout c v).targetsOf o p := by
        rw [App.targetsOf, hwritten]
        exact ht
      exact hacyclic.not_reaches hedge hback
    rw [hcircular, Bool.eq_false_iff.mpr hnot]

end

theorem sampleApp_rootFree : sampleApp.RootFree := fun _ => rfl

theorem sampleModel_selection (o : Orientation) : Models
    (selectionAssertions id (initialCandidates sampleCache o) false) sampleModel := by
  cases o <;> decide +kernel

/-- The view of the sample is anchored. -/
theorem written_layout_anchored_sample :
    (writeLayout (initialCandidates sampleCache) fun _ => sampleModel).isAnchored .horizontal 2 [] 1 =
      some true :=
  ((written_layout_anchored (v := fun _ => sampleModel) sampleModel_selection sampleApp_rooted
    sampleApp_rootFree .horizontal).2.2 1 (by decide) (by decide) 2 (by decide)).2

end InferUI
