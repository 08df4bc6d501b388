import InferUI.RootAnchor

/-!
# Pruned directions

`InitializePrune` walks through the candidates of all views and fixes, for two views, which of
them may point to the other. Whatever the order of the walk, the directions it allows never
contradict each other, and two views with a candidate for one target between them keep one.
-/

namespace InferUI
variable {Prob : Type}

namespace ConstraintCache

/-- Of two views at most one may point to the other. -/
def OneWay (allowed : Nat → Nat → Bool) : Prop :=
  ∀ i j, i ≠ j → ¬ (allowed i j = true ∧ allowed j i = true)

/-- The candidate has one target and leads from `i` to `j`. -/
def Links (attr : Attribute Prob) (i j : Nat) : Prop :=
  attr.type.isRelationalAnchor = true ∧ attr.src = i ∧ attr.tgtPrimary = j

/-- What a round allows: what was allowed, and the targets of the candidate, when none of them
may point back. -/
theorem pruneStep_cases {allowed : Nat → Nat → Bool} {attr : Attribute Prob} {p q : Nat}
    (h : pruneStep allowed attr p q = true) :
    allowed p q = true ∨
      (p = attr.src ∧ q ∈ attr.targets ∧ ∀ t ∈ attr.targets, allowed t attr.src = false) := by
  unfold pruneStep at h
  cases hrel : attr.type.isRelationalAnchor with
  | true =>
    rw [hrel, if_pos rfl] at h
    split at h
    · exact Or.inl h
    · rename_i hback
      simp only [allow, Bool.or_eq_true, decide_eq_true_eq] at h
      rcases h with ⟨rfl, rfl⟩ | h
      · right
        simpa [Attribute.targets, hrel] using hback
      · exact Or.inl h
  | false =>
    rw [hrel, if_neg (by decide)] at h
    cases hs : attr.tgtSecondary with
    | none =>
      rw [hs] at h
      exact Or.inl h
    | some secondary =>
      rw [hs] at h
      dsimp only at h
      split at h
      · rename_i hback
        simp only [allow, Bool.or_eq_true, decide_eq_true_eq] at h
        simp only [Bool.and_eq_true, Bool.not_eq_true'] at hback
        rcases h with ⟨rfl, rfl⟩ | ⟨rfl, rfl⟩ | h
        · right
          simpa [Attribute.targets, hrel, hs] using hback
        · right
          simpa [Attribute.targets, hrel, hs] using hback
        · exact Or.inl h
      · exact Or.inl h

theorem pruneStep_oneWay {allowed : Nat → Nat → Bool} (h : OneWay allowed)
    (attr : Attribute Prob) : OneWay (pruneStep allowed attr) := by
  rintro i j hne ⟨hij, hji⟩
  rcases pruneStep_cases hij with hold | ⟨hi, hj, hback⟩
  · rcases pruneStep_cases hji with hold' | ⟨hj, hi, hback⟩
    · exact h i j hne ⟨hold, hold'⟩
    · rw [hj, hback i hi] at hold
      cases hold
  · rcases pruneStep_cases hji with hold' | ⟨hj', _, _⟩
    · rw [hi, hback j hj] at hold'
      cases hold'
    · exact hne (hi.trans hj'.symm)

/-- After its own round a candidate for one target has a direction allowed. -/
theorem pruneStep_links (allowed : Nat → Nat → Bool) {attr : Attribute Prob} {i j : Nat}
    (h : Links attr i j) :
    pruneStep allowed attr i j = true ∨ pruneStep allowed attr j i = true := by
  obtain ⟨hrel, rfl, rfl⟩ := h
  unfold pruneStep
  rw [if_pos hrel]
  split
  · rename_i hback
    exact Or.inr hback
  · left
    simp [allow]

theorem foldl_pruneStep_oneWay {allowed : Nat → Nat → Bool} (h : OneWay allowed)
    (attrs : List (Attribute Prob)) : OneWay (attrs.foldl pruneStep allowed) := by
  induction attrs generalizing allowed with
  | nil => exact h
  | cons attr attrs ih => exact ih (pruneStep_oneWay h attr)

theorem foldl_pruneStep_links {allowed : Nat → Nat → Bool} {attrs : List (Attribute Prob)}
    {attr : Attribute Prob} (hmem : attr ∈ attrs) {i j : Nat} (h : Links attr i j) :
    attrs.foldl pruneStep allowed i j = true ∨ attrs.foldl pruneStep allowed j i = true := by
  induction attrs generalizing allowed with
  | nil => cases hmem
  | cons first attrs ih =>
    rw [List.foldl_cons]
    obtain rfl | hmem := List.mem_cons.mp hmem
    · rcases pruneStep_links allowed h with hij | hji
      · exact Or.inl (foldl_pruneStep_of_allowed hij attrs)
      · exact Or.inr (foldl_pruneStep_of_allowed hji attrs)
    · exact ih hmem

theorem initializePruneBy_oneWay (gt : Attribute Prob → Attribute Prob → Bool)
    (candidates : List (List (Attribute Prob))) : OneWay (initializePruneBy gt candidates) := by
  apply foldl_pruneStep_oneWay
  rintro i j _ ⟨hij, _⟩
  cases hij

/-- For all lists of candidates in any order, with any scores: no two views may point to each
other, and two views that are linked by a candidate for one target, in either direction, keep
exactly one. -/
theorem initializePrune_one_way (gt : Attribute Prob → Attribute Prob → Bool)
    (candidates : List (List (Attribute Prob))) :
    (∀ i j, i ≠ j → ¬ (initializePruneBy gt candidates i j = true ∧
      initializePruneBy gt candidates j i = true)) ∧
    ∀ i j, i ≠ j → (∃ attrs ∈ candidates, ∃ attr ∈ attrs, Links attr i j ∨ Links attr j i) →
      (initializePruneBy gt candidates i j = true ∧
        initializePruneBy gt candidates j i = false) ∨
      (initializePruneBy gt candidates i j = false ∧
        initializePruneBy gt candidates j i = true) := by
  have hone := initializePruneBy_oneWay gt candidates
  refine ⟨hone, ?_⟩
  rintro i j hne ⟨attrs, hattrs, attr, hattr, hlinks⟩
  have hmem : attr ∈ MultiSortedIterator.elements gt candidates.flatten.length
      (MultiSortedIterator.begin gt candidates) := by
    rw [MultiSortedIterator.mem_elements_begin gt (List.ne_nil_of_mem hattrs)]
    exact ⟨attrs, hattrs, hattr⟩
  have hsome : initializePruneBy gt candidates i j = true ∨
      initializePruneBy gt candidates j i = true := by
    rcases hlinks with h | h
    · exact foldl_pruneStep_links hmem h
    · exact (foldl_pruneStep_links hmem h).symm
  have hnot := hone i j hne
  cases hij : initializePruneBy gt candidates i j with
  | true =>
    left
    refine ⟨rfl, ?_⟩
    rw [← Bool.not_eq_true]
    exact fun hji => hnot ⟨hij, hji⟩
  | false =>
    right
    rw [hij] at hsome
    exact ⟨rfl, hsome.resolve_left (by decide)⟩

end ConstraintCache
end InferUI
