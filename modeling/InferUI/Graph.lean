import InferUI.Layout
import InferUI.Search

/-!
# The graph of targets

`IsAnchored`, `ReferencedNodesInner`, `IsCircularRelation` and `IsAnchoredWithAttr` of
`model.cpp`. They follow pointers without a bound, so each takes fuel and returns `none` when
the recursion is deeper, or a centering attribute lacks its second target. The set `visited` is
passed by value to `IsAnchored`, since the code never reads it after a call returns;
`ReferencedNodesInner` threads it.
-/

namespace InferUI
open Search
variable {Prob : Type}

namespace App

def isAnchored (app : App Prob) (o : Orientation) : Nat → List Int → Nat → Option Bool
  | 0, _, _ => none
  | fuel + 1, visited, p =>
    if app.idOf p = 0 then some true
    else match app.getAttribute o p with
      | none => some false
      | some attr =>
        let visited := app.idOf p :: visited
        if attr.type.isRelationalAnchor then
          if app.idOf attr.tgtPrimary ∈ visited then some false
          else isAnchored app o fuel visited attr.tgtPrimary
        else match attr.tgtSecondary with
          | none => none
          | some secondary =>
            if app.idOf attr.tgtPrimary ∈ visited then some false
            else if app.idOf secondary ∈ visited then some false
            else (isAnchored app o fuel visited attr.tgtPrimary).bind fun anchored =>
              -- the second target starts from a set of its own
              if anchored then isAnchored app o fuel [app.idOf p] secondary else some false

def referencedNodesInner (app : App Prob) (o : Orientation) :
    Nat → List Int → Nat → Option (List Int)
  | 0, _, _ => none
  | fuel + 1, visited, p =>
    let visit (visited : List Int) (t : Nat) : Option (List Int) :=
      if app.idOf t ∈ visited then some visited else referencedNodesInner app o fuel visited t
    let visited := app.idOf p :: visited
    match app.getAttribute o p with
    | none => some visited
    | some attr =>
      if attr.type.isRelationalAnchor then visit visited attr.tgtPrimary
      else match attr.tgtSecondary with
        | none => none
        | some secondary => (visit visited attr.tgtPrimary).bind fun visited => visit visited secondary

def referencedNodes (app : App Prob) (o : Orientation) (fuel p : Nat) : Option (List Int) :=
  app.referencedNodesInner o fuel [] p

def isCircularRelation (app : App Prob) (o : Orientation) (fuel p : Nat)
    (attr : Attribute Prob) : Option Bool :=
  (app.referencedNodes o fuel attr.tgtPrimary).bind fun primary =>
    if attr.type.isRelationalAnchor then some (decide (app.idOf p ∈ primary))
    else if app.idOf p ∈ primary then some true
    else attr.tgtSecondary.bind fun secondary =>
      (app.referencedNodes o fuel secondary).map fun nodes => decide (app.idOf p ∈ nodes)

def isAnchoredWithAttr (app : App Prob) (o : Orientation) (fuel : Nat) (attr : Attribute Prob) :
    Option Bool :=
  (app.isAnchored o fuel [] attr.tgtPrimary).bind fun primary =>
    if attr.type.isRelationalAnchor then some primary
    else if !primary then some false
    else attr.tgtSecondary.bind fun secondary => app.isAnchored o fuel [] secondary

/-! ## The graph -/

/-- The targets of the attribute of a view. -/
def targetsOf (app : App Prob) (o : Orientation) (p : Nat) : List Nat :=
  (app.getAttribute o p).elim [] Attribute.targets

/-- Every attribute of an orientation belongs to its view and refers to views of the app. -/
def Wired (app : App Prob) (o : Orientation) : Prop :=
  ∀ p attr, app.getAttribute o p = some attr → attr.Proper app.views.length o p

/-- Every attribute refers to views of the app, a centering one to two of them. -/
def Linked (app : App Prob) (o : Orientation) : Prop :=
  ∀ p attr, app.getAttribute o p = some attr → attr.tgtPrimary < app.views.length ∧
    (attr.type.isRelationalAnchor = false → ∃ r < app.views.length, attr.tgtSecondary = some r)

/-- Placed by the content frame, through any number of other views. -/
def AnchoredTo (app : App Prob) (o : Orientation) : Nat → Prop :=
  Grounded (fun p => p = 0) (app.targetsOf o)

variable {app : App Prob} {o : Orientation}

theorem Wired.linked (h : app.Wired o) : app.Linked o := by
  intro p attr ha
  exact ⟨(h p attr ha).primary, fun hrel => (h p attr ha).center hrel⟩

theorem idOf_injOn (hids : (app.views.map (·.id)).Nodup) :
    Set.InjOn app.idOf (Finset.range app.views.length : Set Nat) := by
  intro p hp q hq he
  rw [Finset.mem_coe, Finset.mem_range] at hp hq
  exact (idOf_inj_of_nodup hids hp hq).mp he

theorem targets_relational {attr : Attribute Prob} (h : attr.type.isRelationalAnchor = true) :
    attr.targets = [attr.tgtPrimary] := by
  simp [Attribute.targets, h]

theorem targets_center {attr : Attribute Prob} (h : attr.type.isRelationalAnchor = false)
    {secondary : Nat} (hs : attr.tgtSecondary = some secondary) :
    attr.targets = [attr.tgtPrimary, secondary] := by
  simp [Attribute.targets, h, hs]

theorem Linked.cases (h : app.Linked o) (p : Nat) :
    (app.getAttribute o p = none ∧ app.targetsOf o p = []) ∨
    (∃ attr, app.getAttribute o p = some attr ∧ attr.type.isRelationalAnchor = true ∧
      app.targetsOf o p = [attr.tgtPrimary]) ∨
    ∃ attr secondary, app.getAttribute o p = some attr ∧ attr.type.isRelationalAnchor = false ∧
      attr.tgtSecondary = some secondary ∧ app.targetsOf o p = [attr.tgtPrimary, secondary] := by
  cases ha : app.getAttribute o p with
  | none => exact Or.inl ⟨rfl, by simp [targetsOf, ha]⟩
  | some attr =>
    cases hrel : attr.type.isRelationalAnchor with
    | true =>
      exact Or.inr (Or.inl ⟨attr, rfl, hrel, by simp [targetsOf, ha, targets_relational hrel]⟩)
    | false =>
      obtain ⟨secondary, _, hs⟩ := (h p attr ha).2 hrel
      exact Or.inr (Or.inr ⟨attr, secondary, rfl, hrel, hs,
        by simp [targetsOf, ha, targets_center hrel hs]⟩)

theorem Linked.target_lt (h : app.Linked o) {p t : Nat} (ht : t ∈ app.targetsOf o p) :
    t < app.views.length := by
  obtain ⟨_, he⟩ | ⟨attr, ha, _, he⟩ | ⟨attr, secondary, ha, hrel, hs, he⟩ := h.cases p
  · rw [he] at ht
    cases ht
  · rw [he, List.mem_singleton] at ht
    exact ht ▸ (h p attr ha).1
  · rw [he, List.mem_pair] at ht
    obtain rfl | rfl := ht
    · exact (h p attr ha).1
    · obtain ⟨r, hr, hsome⟩ := (h p attr ha).2 hrel
      rw [hs, Option.some.injEq] at hsome
      exact hsome ▸ hr

theorem targetsOf_closed (h : app.Linked o) :
    Closed (app.targetsOf o) (Finset.range app.views.length) := by
  intro p _ t ht
  exact Finset.mem_range.mpr (h.target_lt ht)

theorem targetsOf_applyAttribute {attr : Attribute Prob} {p : Nat} (hp : p < app.views.length) :
    (app.applyAttribute o p attr).targetsOf o =
      Function.update (app.targetsOf o) p attr.targets := by
  funext q
  rw [targetsOf, getAttribute_applyAttribute app hp, Function.update_apply]
  by_cases h : q = p
  · rw [if_pos ⟨rfl, h⟩, if_pos h]
    rfl
  · rw [if_neg (fun hc => h hc.2), if_neg h]
    rfl

/-- The code's search is the depth-first search over targets, keyed by id. -/
theorem referencedNodesInner_eq_dfs (h : app.Linked o) (fuel : Nat) (visited : List Int)
    (p : Nat) :
    app.referencedNodesInner o fuel visited p =
      dfs app.idOf (app.targetsOf o) fuel visited p := by
  induction fuel generalizing visited p with
  | zero => rfl
  | succ fuel ih =>
    rw [referencedNodesInner, dfs]
    simp only [ih]
    obtain ⟨ha, he⟩ | ⟨attr, ha, hrel, he⟩ | ⟨attr, secondary, ha, hrel, hs, he⟩ := h.cases p
    · rw [ha, he]
      rfl
    · rw [ha, he]
      simp [hrel]
    · rw [ha, he]
      simp [hrel, hs]

/-- With fuel for every view the search ends, and returns the ids of what the view depends on. -/
theorem referencedNodes_ids (hids : (app.views.map (·.id)).Nodup) (h : app.Linked o)
    {fuel p : Nat} (hp : p < app.views.length) (hfuel : app.views.length ≤ fuel) :
    ∃ nodes, app.referencedNodes o fuel p = some nodes ∧
      ∀ id, id ∈ nodes ↔ ∃ q < app.views.length, Reaches (app.targetsOf o) p q ∧
        app.idOf q = id := by
  have hclosed := targetsOf_closed h
  have hp' := Finset.mem_range.mpr hp
  have hdone : (dfs app.idOf (app.targetsOf o) fuel [] p).isSome = true :=
    dfs_isSome (idOf_injOn hids) hclosed hp' List.not_mem_nil (by simpa using hfuel)
  obtain ⟨nodes, hnodes⟩ := Option.isSome_iff_exists.mp hdone
  refine ⟨nodes, ?_, ?_⟩
  · rw [referencedNodes, referencedNodesInner_eq_dfs h, hnodes]
  · intro id
    rw [mem_dfs_keys (idOf_injOn hids) hclosed hp' hnodes]
    simp only [Finset.mem_range]

theorem referencedNodes_spec (hids : (app.views.map (·.id)).Nodup) (h : app.Linked o)
    {fuel p : Nat} (hp : p < app.views.length) (hfuel : app.views.length ≤ fuel) :
    ∃ nodes, app.referencedNodes o fuel p = some nodes ∧
      ∀ q < app.views.length, app.idOf q ∈ nodes ↔ Reaches (app.targetsOf o) p q := by
  obtain ⟨nodes, hnodes, hmem⟩ := referencedNodes_ids hids h hp hfuel
  refine ⟨nodes, hnodes, ?_⟩
  intro q hq
  rw [hmem]
  constructor
  · rintro ⟨q', hq', hreach, he⟩
    rwa [← (idOf_inj_of_nodup hids hq' hq).mp he]
  · intro hreach
    exact ⟨q, hq, hreach, rfl⟩

/-- An attribute is circular for a view when one of its targets depends on the view. -/
theorem isCircularRelation_spec (hids : (app.views.map (·.id)).Nodup) (h : app.Linked o)
    {fuel p : Nat} {attr : Attribute Prob} (hp : p < app.views.length)
    (hattr : attr.tgtPrimary < app.views.length)
    (hcenter : attr.type.isRelationalAnchor = false →
      ∃ r < app.views.length, attr.tgtSecondary = some r)
    (hfuel : app.views.length ≤ fuel) :
    ∃ circular, app.isCircularRelation o fuel p attr = some circular ∧
      (circular = true ↔ ∃ t ∈ attr.targets, Reaches (app.targetsOf o) t p) := by
  obtain ⟨primary, hprimary, hmem⟩ := referencedNodes_spec hids h hattr hfuel
  rw [isCircularRelation, hprimary, Option.bind_some]
  cases hrel : attr.type.isRelationalAnchor with
  | true =>
    refine ⟨_, if_pos rfl, ?_⟩
    rw [decide_eq_true_eq, hmem p hp, targets_relational hrel]
    simp
  | false =>
    obtain ⟨secondary, hlt, hs⟩ := hcenter hrel
    obtain ⟨nodes, hnodes, hmem'⟩ := referencedNodes_spec hids h hlt hfuel
    rw [if_neg (by simp), targets_center hrel hs, hs, Option.bind_some, hnodes]
    by_cases hcirc : app.idOf p ∈ primary
    · refine ⟨true, if_pos hcirc, ?_⟩
      simpa using Or.inl ((hmem p hp).mp hcirc)
    · refine ⟨_, if_neg hcirc, ?_⟩
      rw [decide_eq_true_eq, hmem' p hp]
      have hno := mt (hmem p hp).mpr hcirc
      simp [hno]

theorem anchoredTo_iff {p : Nat} (hp : p ≠ 0) :
    app.AnchoredTo o p ↔ app.targetsOf o p ≠ [] ∧ ∀ t ∈ app.targetsOf o p, app.AnchoredTo o t :=
  grounded_iff hp

/-- On an acyclic graph `IsAnchored` is as deep as the rank of its view, and the set `visited`,
which then holds ids of views above it only, never matters. -/
theorem isAnchored_of_rank (hroot : app.Rooted) (h : app.Wired o)
    (hacyclic : Acyclic (app.targetsOf o)) {rank : Nat → Nat}
    (hrank : ∀ p < app.views.length, ∀ t ∈ app.targetsOf o p, rank t < rank p) {fuel p : Nat}
    {visited : List Int} (hp : p < app.views.length) (hfuel : rank p < fuel)
    (hvisited : ∀ q < app.views.length, app.idOf q ∈ visited →
      Relation.TransGen (Edge (app.targetsOf o)) q p) :
    ∃ anchored, app.isAnchored o fuel visited p = some anchored ∧
      (anchored = true ↔ app.AnchoredTo o p) := by
  induction fuel generalizing p visited with
  | zero => omega
  | succ fuel ih =>
    rw [isAnchored]
    by_cases hp0 : app.idOf p = 0
    · exact ⟨true, if_pos hp0, fun _ => .base ((hroot.idOf_eq_zero hp).mp hp0), fun _ => rfl⟩
    · have hpne : p ≠ 0 := mt (hroot.idOf_eq_zero hp).mpr hp0
      rw [if_neg hp0]
      cases ha : app.getAttribute o p with
      | none =>
        refine ⟨false, rfl, ?_⟩
        rw [anchoredTo_iff hpne]
        simp [targetsOf, ha]
      | some attr =>
        have hproper := h p attr ha
        have htargets : app.targetsOf o p = attr.targets := by simp [targetsOf, ha]
        have edge {t : Nat} (ht : t ∈ attr.targets) : Edge (app.targetsOf o) p t := by
          rw [Edge, htargets]
          exact ht
        -- a target is neither the view itself nor above it
        have unvisited {t : Nat} (ht : t ∈ attr.targets) : app.idOf t ∉ app.idOf p :: visited := by
          have htlt := hproper.targets_lt ht
          intro hm
          obtain he | hm := List.mem_cons.mp hm
          · obtain rfl := (hroot.idOf_inj htlt hp).mp he
            exact hacyclic t (.single (edge ht))
          · exact hacyclic t ((hvisited t htlt hm).tail (edge ht))
        have below {t : Nat} (ht : t ∈ attr.targets) : rank t < fuel := by
          have := hrank p hp t (htargets ▸ ht)
          omega
        have above {t : Nat} (ht : t ∈ attr.targets) (q : Nat) (hq : q < app.views.length)
            (hm : app.idOf q ∈ app.idOf p :: visited) :
            Relation.TransGen (Edge (app.targetsOf o)) q t := by
          obtain he | hm := List.mem_cons.mp hm
          · obtain rfl := (hroot.idOf_inj hq hp).mp he
            exact .single (edge ht)
          · exact (hvisited q hq hm).tail (edge ht)
        have hprimary := attr.primary_mem_targets
        obtain ⟨b, hb, hiff⟩ := ih hproper.primary (below hprimary) (above hprimary)
        rw [anchoredTo_iff hpne, htargets]
        cases hrel : attr.type.isRelationalAnchor with
        | true =>
          refine ⟨b, ?_, ?_⟩
          · simp only [hrel, ↓reduceIte, unvisited hprimary, hb]
          · rw [hiff, targets_relational hrel]
            simp
        | false =>
          obtain ⟨secondary, hlt, hs⟩ := hproper.center hrel
          have hsecondary := Attribute.secondary_mem_targets hrel hs
          have above' (q : Nat) (hq : q < app.views.length) (hm : app.idOf q ∈ [app.idOf p]) :
              Relation.TransGen (Edge (app.targetsOf o)) q secondary := by
            rw [List.mem_singleton] at hm
            exact above hsecondary q hq (hm ▸ List.mem_cons_self)
          obtain ⟨b', hb', hiff'⟩ := ih hlt (below hsecondary) above'
          refine ⟨b && b', ?_, ?_⟩
          · simp only [hrel, Bool.false_eq_true, ↓reduceIte, hs, unvisited hprimary,
              unvisited hsecondary, hb, hb', Option.bind_some]
            cases b <;> rfl
          · rw [targets_center hrel hs, Bool.and_eq_true, hiff, hiff']
            simp

/-- On an acyclic graph `IsAnchored` returns, with fuel for every view, and says whether a view
is placed by the content frame. -/
theorem isAnchored_spec (hroot : app.Rooted) (h : app.Wired o)
    (hacyclic : Acyclic (app.targetsOf o)) {fuel p : Nat} (hp : p < app.views.length)
    (hfuel : app.views.length ≤ fuel) :
    ∃ anchored, app.isAnchored o fuel [] p = some anchored ∧
      (anchored = true ↔ app.AnchoredTo o p) := by
  obtain ⟨rank, hrank⟩ := hacyclic.exists_rank (targetsOf_closed h.linked)
  simp only [Finset.mem_range, Finset.card_range] at hrank
  have hdepth := (hrank p hp).1
  apply isAnchored_of_rank hroot h hacyclic (fun q hq => (hrank q hq).2) hp (by omega)
  intro q _ hm
  cases hm

theorem isAnchoredWithAttr_spec (hroot : app.Rooted) (h : app.Wired o)
    (hacyclic : Acyclic (app.targetsOf o)) {fuel p : Nat} {attr : Attribute Prob}
    (hattr : attr.Proper app.views.length o p) (hfuel : app.views.length ≤ fuel) :
    ∃ anchored, app.isAnchoredWithAttr o fuel attr = some anchored ∧
      (anchored = true ↔ ∀ t ∈ attr.targets, app.AnchoredTo o t) := by
  obtain ⟨primary, hprimary, hiff⟩ := isAnchored_spec hroot h hacyclic hattr.primary hfuel
  rw [isAnchoredWithAttr, hprimary, Option.bind_some]
  cases hrel : attr.type.isRelationalAnchor with
  | true =>
    refine ⟨primary, if_pos rfl, ?_⟩
    rw [hiff, targets_relational hrel]
    simp
  | false =>
    obtain ⟨secondary, hlt, hs⟩ := hattr.center hrel
    obtain ⟨second, hsecond, hiff'⟩ := isAnchored_spec hroot h hacyclic hlt hfuel
    refine ⟨primary && second, ?_, ?_⟩
    · rw [if_neg (by simp), hs, Option.bind_some, hsecond]
      cases primary <;> rfl
    · rw [targets_center hrel hs, Bool.and_eq_true, hiff, hiff']
      simp

end App
end InferUI
