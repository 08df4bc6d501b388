import InferUI.ConstraintNames
import InferUI.RootAnchor

/-!
# Ranks looked up by name

`AttrScorer::GetRank` looks up the rank of a candidate by the name of its boolean. The name holds
the positions of the targets, and the lookup compares their ids. So it finds the candidate when
the two are the same for each of its targets, and only then.
-/

namespace InferUI
variable {Prob : Type}

namespace ConstraintCache

/-- The comparison in `GetRank`: targets have the given ids, and an attribute with one target goes
with any second one. -/
def isLookedUp (app : App Prob) (type : ConstraintType) (size : ViewSize)
    (primary secondary : Int) (attr : Attribute Prob) : Bool :=
  decide (attr.type = type) && decide (attr.viewSize = size) &&
    decide (app.idOf attr.tgtPrimary = primary) &&
    attr.tgtSecondary.elim true fun tgt => decide (app.idOf tgt = secondary)

/-- The loop over the candidates from some rank on. `none` is the answer for a candidate that is
not found, the largest rank there is. -/
def findRank (maxRank : Int) (lookedUp : Attribute Prob → Bool) :
    Nat → List (Attribute Prob) → Option (Nat × Prob)
  | _, [] => none
  | rank, attr :: attrs =>
    if maxRank ≠ -1 ∧ maxRank < rank then none
    else if lookedUp attr then some (rank, attr.prob)
    else findRank maxRank lookedUp (rank + 1) attrs

variable {app : App Prob} {o : Orientation}

/-- `GetRank`; the outer `none` is a failed `CHECK`. -/
def getRank (cache : ConstraintCache app o) (id : Nat) (type : ConstraintType) (size : ViewSize)
    (primary secondary maxRank : Int) : Option (Option (Nat × Prob)) :=
  if 1 ≤ id ∧ id - 1 < cache.candidateAttrs.length then
    some (findRank maxRank (isLookedUp app type size primary secondary) 0 (cache.candidates id))
  else none

end ConstraintCache

/-- `AttrScorer::GetRank`. The name is read by `readName`, which agrees with the constructor of
`ConstraintData` on what `ConstraintName` prints. -/
def attrScorerGetRank {app : App Prob} {o : Orientation} (cache : ConstraintCache app o)
    (name : List Char) (maxRank : Int) : Option (Option (Nat × Prob)) := do
  let data ← readName name
  cache.getRank data.src data.type data.size data.primary data.secondary maxRank

namespace ConstraintCache
variable {app : App Prob} {o : Orientation}

/-- Without a limit the lookup finds the first candidate that compares equal. -/
theorem findRank_eq (lookedUp : Attribute Prob → Bool) (start : Nat)
    (attrs : List (Attribute Prob)) :
    findRank (-1) lookedUp start attrs = (attrs.findIdx? lookedUp).bind fun r =>
      (attrs[r]?).map fun attr => (start + r, attr.prob) := by
  induction attrs generalizing start with
  | nil => rfl
  | cons head tail ih =>
    have hlimit : ¬ ((-1 : Int) ≠ -1 ∧ (-1 : Int) < start) := fun h => h.1 rfl
    rw [findRank, if_neg hlimit, List.findIdx?_cons]
    by_cases hhead : lookedUp head = true
    · rw [if_pos hhead, if_pos hhead]
      rfl
    · rw [if_neg hhead, if_neg hhead, ih, Option.bind_map]
      congr 1
      funext r
      simp only [Function.comp_apply, List.getElem?_cons_succ]
      rw [Nat.add_right_comm, Nat.add_assoc]

/-- The lookup gives a candidate its own rank when no candidate before it compares equal. -/
theorem findRank_iff {lookedUp : Attribute Prob → Bool} {attrs : List (Attribute Prob)} {r : Nat}
    {attr : Attribute Prob} (hattr : attrs[r]? = some attr) :
    findRank (-1) lookedUp 0 attrs = some (r, attr.prob) ↔
      lookedUp attr = true ∧
        ∀ r' < r, ∀ other, attrs[r']? = some other → lookedUp other = false := by
  have hfound : findRank (-1) lookedUp 0 attrs = some (r, attr.prob) ↔
      attrs.findIdx? lookedUp = some r := by
    rw [findRank_eq]
    constructor
    · intro h
      obtain ⟨r', hr', h⟩ := Option.bind_eq_some_iff.mp h
      obtain ⟨_, _, he⟩ := Option.map_eq_some_iff.mp h
      rw [Prod.mk.injEq, Nat.zero_add] at he
      rw [hr', he.1]
    · intro h
      rw [h, Option.bind_some, hattr, Option.map_some, Nat.zero_add]
  obtain ⟨hlt, rfl⟩ := List.getElem?_eq_some_iff.mp hattr
  rw [hfound, List.findIdx?_eq_some_iff_getElem]
  constructor
  · rintro ⟨_, hlooked, hfirst⟩
    refine ⟨hlooked, fun r' hr' other hother => ?_⟩
    obtain ⟨_, rfl⟩ := List.getElem?_eq_some_iff.mp hother
    simpa using hfirst r' hr'
  · rintro ⟨hlooked, hfirst⟩
    refine ⟨hlt, hlooked, fun r' hr' => ?_⟩
    simp [hfirst r' hr' _ (List.getElem?_eq_getElem (by omega))]

/-- What the lookup compares with is read from the name: the positions of the targets. -/
theorem isLookedUp_iff {attr : Attribute Prob} {type : ConstraintType} {size : ViewSize}
    {primary : Nat} {secondary : Option Nat} :
    isLookedUp app type size primary (secondary.elim (-1) fun r => (r : Int)) attr = true ↔
      attr.type = type ∧ attr.viewSize = size ∧ app.idOf attr.tgtPrimary = primary ∧
        ∀ tgt, attr.tgtSecondary = some tgt →
          app.idOf tgt = secondary.elim (-1) fun r => (r : Int) := by
  unfold isLookedUp
  cases attr.tgtSecondary <;> simp [and_assoc]

/-- A candidate compares equal to its own name when the ids of its targets are positions. -/
theorem isLookedUp_self {attr : Attribute Prob} {p : Nat}
    (h : attr.Proper app.views.length o p) :
    isLookedUp app attr.type attr.viewSize attr.tgtPrimary
        (attr.tgtSecondary.elim (-1) fun r => (r : Int)) attr = true ↔
      ∀ t ∈ attr.targets, app.idOf t = t := by
  rw [isLookedUp_iff]
  unfold Attribute.targets
  cases hrel : attr.type.isRelationalAnchor with
  | true => simp [(h.relational hrel).1]
  | false =>
    obtain ⟨r, _, hr⟩ := h.center hrel
    simp [hr]

/-- A candidate that compares equal to a name printed from positions that are ids has the same
targets. -/
theorem constrains_of_isLookedUp {attr other : Attribute Prob} {p : Nat} (hroot : app.Rooted)
    (h : attr.Proper app.views.length o p) (hother : other.Proper app.views.length o p)
    (hids : ∀ t ∈ attr.targets, app.idOf t = t)
    (hlooked : isLookedUp app attr.type attr.viewSize attr.tgtPrimary
      (attr.tgtSecondary.elim (-1) fun r => (r : Int)) other = true) :
    other.Constrains attr.type attr.viewSize attr.tgtPrimary attr.tgtSecondary := by
  obtain ⟨htype, hsize, hprimary, hsecondary⟩ := isLookedUp_iff.mp hlooked
  rw [← hids _ attr.primary_mem_targets, hroot.idOf_inj hother.primary h.primary] at hprimary
  refine ⟨htype, hsize, hprimary, ?_⟩
  cases hrel : attr.type.isRelationalAnchor with
  | true => rw [(h.relational hrel).1, (hother.relational (htype ▸ hrel)).1]
  | false =>
    obtain ⟨r, hr, hsome⟩ := h.center hrel
    obtain ⟨r', hr', hsome'⟩ := hother.center (htype ▸ hrel)
    have he := hsecondary r' hsome'
    rw [hsome, Option.elim_some, ← hids r (Attribute.secondary_mem_targets hrel hsome),
      hroot.idOf_inj hr' hr] at he
    rw [hsome, hsome', he]

section
variable [LinearOrder Prob] [Zero Prob]

/-- The candidates of a view that has some. -/
theorem exists_of_getAttr {model : ProbModel Prob} {sort : StdSort Prob} {hroot : app.Rooted}
    {p r : Nat} {attr : Attribute Prob}
    (h : (ofModel model sort app hroot o).getAttr p r = some attr) :
    1 ≤ p ∧ p - 1 < (ofModel model sort app hroot o).candidateAttrs.length ∧
      p < app.views.length ∧ ((ofModel model sort app hroot o).candidates p).Pairwise Distinct := by
  cases p with
  | zero => cases h
  | succ i =>
    have hsome : i < (ofModel model sort app hroot o).candidateAttrs.length := by
      by_contra hle
      simp [getAttr, candidates, List.getElem?_eq_none (not_lt.mp hle)] at h
    have hget := initializeBaseConstraints_getElem? hroot model sort o i
    have hlt : i + 1 < app.views.length := by
      by_contra hle
      rw [List.getElem?_eq_none (l := app.views) (by omega), Option.map_none,
        List.getElem?_eq_none_iff] at hget
      exact absurd hsome (not_lt.mpr hget)
    have hview := List.getElem_mem (l := app.views) hlt
    have hpos := app.getElem_pos hlt
    refine ⟨by omega, by simpa using hsome, hlt, ?_⟩
    have hcandidates : (ofModel model sort app hroot o).candidates _ =
        viewCandidates model sort app o _ := candidates_ofModel hroot hview (by omega)
    rw [hpos] at hcandidates
    rw [hcandidates]
    exact viewCandidates_distinct model sort app o _

/-- The lookup by name gives a candidate's own rank and probability exactly when the ids of its
targets are their positions. -/
theorem getRank_name_iff (model : ProbModel Prob) (sort : StdSort Prob) (app : App Prob)
    (hroot : app.Rooted) (o : Orientation) (p r : Nat) (attr : Attribute Prob)
    (h : (ofModel model sort app hroot o).getAttr p r = some attr) :
    attrScorerGetRank (ofModel model sort app hroot o)
        (printAttributeName (convertViews app o 0) attr) (-1) = some (some (r, attr.prob)) ↔
      ∀ t ∈ attr.targets, app.idOf t = t := by
  obtain ⟨hp, hlength, hlt, hdistinct⟩ := exists_of_getAttr h
  have hproper := proper_of_mem _ (List.mem_of_getElem? h)
  have hlookup : attrScorerGetRank (ofModel model sort app hroot o)
      (printAttributeName (convertViews app o 0) attr) (-1) =
      some (findRank (-1) (isLookedUp app attr.type attr.viewSize attr.tgtPrimary
        (attr.tgtSecondary.elim (-1) fun r => (r : Int))) 0
        ((ofModel model sort app hroot o).candidates p)) := by
    unfold attrScorerGetRank
    rw [readName_printAttributeName, attributeName_eq rfl hproper hlt]
    exact if_pos ⟨hp, hlength⟩
  rw [hlookup, Option.some.injEq, findRank_iff h, isLookedUp_self hproper]
  constructor
  · exact fun hfound => hfound.1
  · intro hids
    refine ⟨hids, fun r' hr' other hother => ?_⟩
    by_contra hlooked
    have hother' := proper_of_mem _ (List.mem_of_getElem? hother)
    -- the other candidate would stand for the same constraint
    have hsame := constrains_of_isLookedUp hroot hproper hother' hids (by simpa using hlooked)
    obtain ⟨hrlt, he⟩ := List.getElem?_eq_some_iff.mp h
    obtain ⟨hrlt', he'⟩ := List.getElem?_eq_some_iff.mp hother
    have hne := List.pairwise_iff_getElem.mp hdistinct r' r hrlt' hrlt hr'
    rw [he, he'] at hne
    exact hne hsame

end

/-! ## An app in which a view was left out -/

theorem getRank_name_iff_sample :
    ∃ attr, (sampleCache .horizontal).getAttr 1 0 = some attr ∧
      (attrScorerGetRank (sampleCache .horizontal)
          (printAttributeName (convertViews sampleApp .horizontal 0) attr) (-1) =
        some (some (0, attr.prob)) ↔ ∀ t ∈ attr.targets, sampleApp.idOf t = t) := by
  have hsome : ((sampleCache .horizontal).getAttr 1 0).isSome = true := by decide +kernel
  obtain ⟨attr, hattr⟩ := Option.isSome_iff_exists.mp hsome
  exact ⟨attr, hattr, getRank_name_iff (fun _ _ => 0) (.insertion ℚ) sampleApp sampleApp_rooted
    .horizontal 1 0 attr hattr⟩

/-- The view with id 1 is not in the app. -/
def sparseApp : App ℚ := .ofViews [⟨0, 0, 100, 100, 0, 0, fun _ => none, fun _ => none⟩,
  ⟨10, 20, 30, 60, 2, 0, fun _ => none, fun _ => none⟩,
  ⟨50, 20, 70, 60, 3, 0, fun _ => none, fun _ => none⟩]

theorem sparseApp_rooted : sparseApp.Rooted := App.rooted_ofViews rfl (by decide)

def sparseCache : ConstraintCache sparseApp .horizontal :=
  .ofModel (fun _ _ => 0) (.insertion ℚ) sparseApp sparseApp_rooted .horizontal

/-- The third candidate of the first view points to the other view, at position 2 and with the
id 3. Its name is not found. -/
theorem sparse_name_not_found : ∃ attr, sparseCache.getAttr 1 2 = some attr ∧
    attrScorerGetRank sparseCache (printAttributeName (convertViews sparseApp .horizontal 0) attr)
      (-1) = some none := by
  have hlookup : (sparseCache.getAttr 1 2).map (fun attr => attrScorerGetRank sparseCache
      (printAttributeName (convertViews sparseApp .horizontal 0) attr) (-1)) =
      some (some none) := by
    decide +kernel
  exact Option.map_eq_some_iff.mp hlookup

end ConstraintCache
end InferUI
