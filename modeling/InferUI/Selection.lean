import InferUI.Encoding

/-!
# The selected attributes

A model of the anchor, candidate and exactly-one assertions selects one attribute for every
view but the root, and the anchor variables order each view after its targets.
-/

namespace InferUI
open Store
variable {Prob K : Type} {app : App Prob} {o : Orientation}

theorem models_addAnchorConstraints {v : Assignment K} :
    Models (addAnchorConstraints (convertViews app o 0)) v ↔
      ∀ p < app.views.length, if p = 0 then v.anchor (uniqueId p o) = 0
        else 0 < v.anchor (uniqueId p o) := by
  rw [addAnchorConstraints, models_map, forall_convertViews]
  apply forall₂_congr
  intro p hlt
  rw [findView_pos hlt, Z3View.anchor, findView_uniqueId hlt]
  split <;> rw [decide_eq_true_eq]

/-- The name of a candidate only depends on its own data. -/
theorem attributeName_eq {attr : Attribute Prob} {n : Nat} {d p : Nat} (hn : app.views.length = n)
    (h : attr.Proper n o p) (hlt : p < n) :
    attributeName (convertViews app o d) attr =
      ⟨attr.type, attr.viewSize, o, p, attr.tgtPrimary,
        attr.tgtSecondary.elim (-1) fun r => (r : Int)⟩ := by
  subst hn
  have horientation : (findView (convertViews app o d) p).orientation = o := by
    rw [findView_eq (List.getElem?_eq_getElem hlt)]
  rw [attributeName, h.own]
  simp only [Z3View.constraintName, findView_pos hlt, findView_pos h.primary, horientation]
  cases hrel : attr.type.isRelationalAnchor with
  | true =>
    obtain ⟨hnone, hsize⟩ := h.relational hrel
    simp [hnone, hsize]
  | false =>
    obtain ⟨r, hr, hsome⟩ := h.center hrel
    simp [hsome, findView_pos hr]

theorem attributeName_device {device : App Prob} {attr : Attribute Prob} {d p : Nat}
    (hn : device.views.length = app.views.length) (h : attr.Proper app.views.length o p)
    (hlt : p < app.views.length) :
    attributeName (convertViews device o d) attr = attributeName (convertViews app o 0) attr := by
  rw [attributeName_eq hn h hlt, attributeName_eq rfl h hlt]

theorem anchorValue_eq {attr : Attribute Prob} {p : Nat} (h : attr.Proper app.views.length o p)
    (v : Assignment K) :
    anchorValue (convertViews app o 0) attr v =
      (attr.targets.map fun t => v.anchor (uniqueId t o)).sum + 1 := by
  rw [anchorValue, Attribute.targets]
  simp only [Z3View.anchor, findView_uniqueId h.primary]
  cases hrel : attr.type.isRelationalAnchor with
  | true => simp
  | false =>
    obtain ⟨r, hr, hsome⟩ := h.center hrel
    simp [hsome, findView_uniqueId hr]

theorem mem_of_filter_eq {α : Type} {f : α → Bool} {xs : List α} {x : α} (h : xs.filter f = [x]) :
    x ∈ xs ∧ f x = true := by
  have hx : x ∈ xs.filter f := by simp [h]
  exact List.mem_filter.mp hx

section
variable [Field K] [LinearOrder K] [FloorRing K]

/-- What every synthesis with a candidate set asserts of the reference: `AddAnchorConstraints`,
`AddSynAttributes`, `FinishedAddingConstraints` and the assumptions. -/
def selectionAssertions (printed : Prob → K) (c : CandidateConstraints app o) (opt : Bool) :
    List (Expr K) :=
  let views := convertViews app o 0
  let enc := (Encoder.ofCandidates c).addConstraintExprs views
  addAnchorConstraints views ++ addSynAttributes printed views c opt ++
    finishedAddingConstraints views enc ++ getAssumptions views enc

/-- `attr` is the selected candidate of view `p`. -/
structure Chosen (c : CandidateConstraints app o) (v : Assignment K) (p : Nat)
    (attr : Attribute Prob) : Prop where
  only : ((c.getAttributes p).filter fun attr =>
    v.select (attributeName (convertViews app o 0) attr)) = [attr]
  value : attributeValue (convertViews app o 0) attr v = true
  anchor_lt : ∀ t ∈ attr.targets,
    (v.anchor (uniqueId t o)).toNat < (v.anchor (uniqueId p o)).toNat

theorem Chosen.mem {c : CandidateConstraints app o} {v : Assignment K} {p : Nat}
    {attr : Attribute Prob} (h : Chosen c v p attr) : attr ∈ c.getAttributes p :=
  (mem_of_filter_eq h.only).1

theorem Chosen.selected {c : CandidateConstraints app o} {v : Assignment K} {p : Nat}
    {attr : Attribute Prob} (h : Chosen c v p attr) :
    v.select (attributeName (convertViews app o 0) attr) = true :=
  (mem_of_filter_eq h.only).2

theorem Chosen.proper {c : CandidateConstraints app o} {v : Assignment K} {p : Nat}
    {attr : Attribute Prob} (h : Chosen c v p attr) : attr.Proper app.views.length o p :=
  CandidateConstraints.getAttributes_proper h.mem

theorem Chosen.unique {c : CandidateConstraints app o} {v : Assignment K} {p : Nat}
    {attr other : Attribute Prob} (h : Chosen c v p attr) (hmem : other ∈ c.getAttributes p)
    (hsel : v.select (attributeName (convertViews app o 0) other) = true) : other = attr := by
  have hfiltered : other ∈ (c.getAttributes p).filter fun attr =>
      v.select (attributeName (convertViews app o 0) attr) := List.mem_filter.mpr ⟨hmem, hsel⟩
  rw [h.only] at hfiltered
  exact List.mem_singleton.mp hfiltered

/-- The one selected candidate of a view holds, and its targets come before it. -/
theorem exists_chosen_of {printed : Prob → K} {c : CandidateConstraints app o} {opt : Bool}
    {v : Assignment K} (hanchor : Models (addAnchorConstraints (convertViews app o 0)) v)
    (hsyn : Models (addSynAttributes printed (convertViews app o 0) c opt) v) {p : Nat}
    (hp : p ≠ 0) (hlt : p < app.views.length)
    (hone : exactlyOne v.select
      ((c.getAttributes p).map (attributeName (convertViews app o 0))) = true) :
    ∃ attr, Chosen c v p attr := by
  rw [exactlyOne_map] at hone
  obtain ⟨attr, honly⟩ := exactlyOne_iff.mp hone
  obtain ⟨hmem, hsel⟩ := mem_of_filter_eq honly
  have hproper := CandidateConstraints.getAttributes_proper hmem
  have hmeaning := (models_synAttribute.mp
    (models_addSynAttributes.mp hsyn p hp hlt attr hmem)).1 hsel
  refine ⟨attr, honly, hmeaning.1, ?_⟩
  have heq : v.anchor (uniqueId p o) =
      (attr.targets.map fun t => v.anchor (uniqueId t o)).sum + 1 := by
    rw [← anchorValue_eq hproper, ← hmeaning.2, hproper.own, Z3View.anchor, findView_uniqueId hlt]
  have hnonneg (t : Nat) (ht : t ∈ attr.targets) : 0 ≤ v.anchor (uniqueId t o) := by
    have := models_addAnchorConstraints.mp hanchor t (hproper.targets_lt ht)
    split at this
    · exact this.ge
    · exact this.le
  intro t ht
  have hle := List.single_le_sum (l := attr.targets.map fun t => v.anchor (uniqueId t o))
    (by simpa using hnonneg) _ (List.mem_map.mpr ⟨t, ht, rfl⟩)
  have := hnonneg t ht
  omega

/-- Every view but the root has exactly one selected candidate, which holds. -/
theorem exists_chosen {printed : Prob → K} {c : CandidateConstraints app o} {opt : Bool}
    {v : Assignment K} (h : Models (selectionAssertions printed c opt) v) {p : Nat} (hp : p ≠ 0)
    (hlt : p < app.views.length) : ∃ attr, Chosen c v p attr := by
  simp only [selectionAssertions, models_append] at h
  obtain ⟨⟨⟨hanchor, hsyn⟩, hfin⟩, hassume⟩ := h
  have hone := exactlyOne_of_assumed hfin hassume hp hlt
  have hnames := addConstraintExprs_constraints (d := 0) (Encoder.ofCandidates c) hp hlt
  rw [hnames, Encoder.ofCandidates, List.nil_append] at hone
  exact exists_chosen_of hanchor hsyn hp hlt hone

end
end InferUI
