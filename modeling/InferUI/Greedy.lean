import InferUI.Cache
import InferUI.Graph

/-!
# Greedy layout synthesis

`LayoutSynthesis` of `synthesis.h` on one app. It walks through the candidates of all views in
the merged order of their probabilities, and applies a candidate to its view when that keeps the
graph acyclic and anchors the view or raises its probability.
-/

namespace InferUI
open Search
variable {Prob : Type}

/-- The state of the main loop of `Synthesize` before each of its rounds. -/
structure Greedy (Prob : Type) where
  app : App Prob
  it : MultiSortedIterator (Attribute Prob)

section
variable [LinearOrder Prob]

/-- `fuel` bounds the depth of the recursive searches. -/
def shouldApplyConstraint (app : App Prob) (o : Orientation) (fuel : Nat)
    (attr : Attribute Prob) : Option Bool :=
  (app.isCircularRelation o fuel attr.src attr).bind fun circular =>
    if circular then some false
    else match app.getAttribute o attr.src with
      | none => some true
      | some current =>
        (app.isAnchoredWithAttr o fuel attr).bind fun willAnchor =>
          (app.isAnchored o fuel [] attr.src).map fun anchored =>
            if anchored = willAnchor then decide (current.prob < attr.prob) else willAnchor

namespace Greedy
open ConstraintCache

/-- The body of the main loop, with the `it++` that follows it. -/
def step (o : Orientation) (fuel : Nat) (st : Greedy Prob) : Option (Greedy Prob) :=
  st.it.deref.bind fun attr =>
    (shouldApplyConstraint st.app o fuel attr).bind fun apply =>
      if apply then
        let app := st.app.applyAttribute o attr.src attr
        (app.isAnchored o fuel [] attr.src).map fun anchored =>
          ⟨app, (if anchored then st.it.setCurrentToEnd else st.it).advance gt⟩
      else some ⟨st.app, st.it.advance gt⟩

/-- The main loop, for at most `rounds` rounds. -/
def loop (o : Orientation) (fuel : Nat) : Nat → Greedy Prob → Option (Greedy Prob)
  | 0, st => if st.it.isEnd then some st else none
  | rounds + 1, st => if st.it.isEnd then some st else (st.step o fuel).bind (loop o fuel rounds)

variable [Zero Prob]

def start (model : ProbModel Prob) (sort : StdSort Prob) (app : App Prob) (o : Orientation) :
    Greedy Prob :=
  ⟨app, .begin gt (initializeBaseConstraints model sort app o)⟩

/-- `Synthesize` for one orientation. -/
def synthesize (model : ProbModel Prob) (sort : StdSort Prob) (app : App Prob) (o : Orientation)
    (fuel rounds : Nat) : Option (App Prob) :=
  (loop o fuel rounds (start model sort app o)).map (·.app)

end Greedy
end

/-- `t` is the state some rounds after `s`. -/
inductive Greedy.Reaches [LinearOrder Prob] (o : Orientation) (fuel : Nat) (s : Greedy Prob) :
    Greedy Prob → Prop where
  | refl : Reaches o fuel s s
  | next {t u : Greedy Prob} : Reaches o fuel s t → t.it.isEnd = false →
      t.step o fuel = some u → Reaches o fuel s u

/-! ## Applying an attribute -/

namespace App
variable {app : App Prob} {o : Orientation} {attr : Attribute Prob} {p : Nat}

theorem Wired.applyAttribute (h : app.Wired o) (hp : p < app.views.length)
    (hattr : attr.Proper app.views.length o p) : (app.applyAttribute o p attr).Wired o := by
  intro q attr' ha
  rw [length_applyAttribute]
  rw [getAttribute_applyAttribute app hp] at ha
  split at ha
  · rename_i hc
    obtain rfl := Option.some.inj ha
    exact hc.2 ▸ hattr
  · exact h q attr' ha

theorem RootFree.applyAttribute (h : app.RootFree) (hp : p < app.views.length) (hp0 : p ≠ 0) :
    (app.applyAttribute o p attr).RootFree := by
  intro o'
  rw [getAttribute_applyAttribute app hp, if_neg (fun hc => hp0 hc.2.symm)]
  exact h o'

theorem targetsOf_root (h : app.RootFree) (o : Orientation) : app.targetsOf o 0 = [] := by
  rw [targetsOf, h o]
  rfl

/-- Nothing is reached from the root but itself. -/
theorem not_reaches_of_root (h : app.RootFree) (hp0 : p ≠ 0) :
    ¬ Reaches (app.targetsOf o) 0 p := by
  intro hreach
  obtain heq | ⟨t, ht, _⟩ := Relation.ReflTransGen.cases_head hreach
  · exact hp0 heq.symm
  · rw [Edge, targetsOf_root h] at ht
    cases ht

/-- An anchored view other than the root has an attribute with anchored targets. -/
theorem AnchoredTo.exists_attribute (h : app.AnchoredTo o p) (hp0 : p ≠ 0) :
    ∃ attr, app.getAttribute o p = some attr ∧ ∀ t ∈ attr.targets, app.AnchoredTo o t := by
  obtain ⟨hne, hall⟩ := (anchoredTo_iff hp0).mp h
  cases ha : app.getAttribute o p with
  | none => simp [targetsOf, ha] at hne
  | some attr =>
    refine ⟨attr, rfl, ?_⟩
    simpa [targetsOf, ha] using hall

section
variable (hp : p < app.views.length) (hcirc : ∀ t ∈ attr.targets, ¬ Reaches (app.targetsOf o) t p)
include hp hcirc

theorem acyclic_applyAttribute (h : Acyclic (app.targetsOf o)) :
    Acyclic ((app.applyAttribute o p attr).targetsOf o) := by
  rw [targetsOf_applyAttribute hp]
  exact h.update hcirc

/-- A view whose new attribute has anchored targets is anchored. -/
theorem anchoredTo_applyAttribute (h : ∀ t ∈ attr.targets, app.AnchoredTo o t) :
    (app.applyAttribute o p attr).AnchoredTo o p := by
  rw [AnchoredTo, targetsOf_applyAttribute hp]
  refine .step ?_ ?_
  · rw [Function.update_self]
    exact List.ne_nil_of_mem attr.primary_mem_targets
  · rw [Function.update_self]
    intro t ht
    exact (h t ht).congr_of_not_reaches (hcirc t ht)

/-- Anchored views stay anchored as long as the changed view does. -/
theorem AnchoredTo.applyAttribute {q : Nat} (h : app.AnchoredTo o q)
    (hkeep : app.AnchoredTo o p → ∀ t ∈ attr.targets, app.AnchoredTo o t) :
    (app.applyAttribute o p attr).AnchoredTo o q := by
  rw [AnchoredTo, targetsOf_applyAttribute hp]
  apply Grounded.update h
  intro hold
  have hself := anchoredTo_applyAttribute hp hcirc (hkeep hold)
  rwa [AnchoredTo, targetsOf_applyAttribute hp] at hself

end
end App

/-! ## One round -/

section
variable [LinearOrder Prob] {app : App Prob} {o : Orientation} {attr : Attribute Prob} {fuel : Nat}

/-- `ShouldApplyConstraint` returns. What it lets through is not circular and does not undo an
anchored view; what it refuses among the candidates tied to the root was not needed. -/
theorem shouldApplyConstraint_spec (hroot : app.Rooted) (hfree : app.RootFree)
    (hwired : app.Wired o) (hacyclic : Acyclic (app.targetsOf o))
    (hattr : attr.Proper app.views.length o attr.src) (hlt : attr.src < app.views.length)
    (hsrc : attr.src ≠ 0) (hfuel : app.views.length ≤ fuel) :
    ∃ apply, shouldApplyConstraint app o fuel attr = some apply ∧
      (apply = true → (∀ t ∈ attr.targets, ¬ Reaches (app.targetsOf o) t attr.src) ∧
        (app.AnchoredTo o attr.src → ∀ t ∈ attr.targets, app.AnchoredTo o t)) ∧
      (apply = false → (∀ t ∈ attr.targets, t = 0) → app.AnchoredTo o attr.src) := by
  obtain ⟨circular, hcirc, hcircIff⟩ := App.isCircularRelation_spec hroot.distinct hwired.linked
    hlt hattr.primary hattr.center hfuel
  rw [shouldApplyConstraint, hcirc, Option.bind_some]
  cases circular with
  | true =>
    refine ⟨false, rfl, (fun h => by cases h), fun _ hzero => ?_⟩
    obtain ⟨t, ht, hreach⟩ := hcircIff.mp rfl
    rw [hzero t ht] at hreach
    exact absurd hreach (App.not_reaches_of_root hfree hsrc)
  | false =>
    have hno (t : Nat) (ht : t ∈ attr.targets) : ¬ Reaches (app.targetsOf o) t attr.src := by
      intro hreach
      cases hcircIff.mpr ⟨t, ht, hreach⟩
    cases hcurrent : app.getAttribute o attr.src with
    | none =>
      refine ⟨true, by simp, fun _ => ⟨hno, fun hanchored => ?_⟩, fun h => by cases h⟩
      obtain ⟨_, hsome, _⟩ := hanchored.exists_attribute hsrc
      rw [hcurrent] at hsome
      cases hsome
    | some current =>
      obtain ⟨willAnchor, hwill, hwillIff⟩ :=
        App.isAnchoredWithAttr_spec hroot hwired hacyclic hattr hfuel
      obtain ⟨anchored, hanchored, hanchoredIff⟩ :=
        App.isAnchored_spec hroot hwired hacyclic hlt hfuel
      simp only [Bool.false_eq_true, ↓reduceIte, hwill, hanchored, Option.bind_some,
        Option.map_some, Option.some.injEq, exists_eq_left']
      constructor
      · intro happly
        refine ⟨hno, fun hold => hwillIff.mp ?_⟩
        have : anchored = true := hanchoredIff.mpr hold
        split at happly
        · rename_i heq
          rw [← heq, this]
        · exact happly
      · intro hrefuse hzero
        have hwillTrue : willAnchor = true := hwillIff.mpr fun t ht => .base (hzero t ht)
        apply hanchoredIff.mp
        by_contra hnot
        rw [if_neg (by rw [hwillTrue]; exact hnot), hwillTrue] at hrefuse
        cases hrefuse

end

namespace Greedy
open ConstraintCache

section
variable [LinearOrder Prob] [Zero Prob]

/-- What holds before each round. Every view that is not anchored yet has a candidate ahead whose
only target is the root. -/
structure Invariant (model : ProbModel Prob) (sort : StdSort Prob) (app : App Prob)
    (o : Orientation) (st : Greedy Prob) : Prop where
  length : st.app.views.length = app.views.length
  ids : ∀ p, st.app.idOf p = app.idOf p
  free : st.app.RootFree
  wired : st.app.Wired o
  acyclic : Acyclic (st.app.targetsOf o)
  values : st.it.values = initializeBaseConstraints model sort app o
  valid : st.it.Valid gt
  ahead : ∀ p, p ≠ 0 → p < app.views.length → st.app.AnchoredTo o p ∨
    ∃ attr ∈ st.it.rest (p - 1), ∀ t ∈ attr.targets, t = 0

variable {model : ProbModel Prob} {sort : StdSort Prob} {app : App Prob} {o : Orientation}
variable {st : Greedy Prob} {fuel : Nat}

/-- What is left of list `i` belongs to view `i + 1`. -/
theorem Invariant.proper (h : Invariant model sort app o st) (hroot : app.Rooted) {i : Nat}
    {attr : Attribute Prob} (hattr : attr ∈ st.it.rest i) :
    i + 1 < app.views.length ∧ attr.Proper app.views.length o (i + 1) := by
  have hmem := List.mem_of_mem_drop hattr
  rw [h.values] at hmem
  have hlt : i + 1 < app.views.length := by
    by_contra hge
    rw [initializeBaseConstraints_getElem? hroot, List.getElem?_eq_none (by omega)] at hmem
    cases hmem
  have hmem : attr ∈ (ofModel model sort app hroot o).candidates (i + 1) := hmem
  exact ⟨hlt, (ofModel model sort app hroot o).proper_of_mem hmem⟩

/-- The candidates that are still needed survive a round. -/
theorem Invariant.ahead_next (h : Invariant model sort app o st) (hend : st.it.isEnd = false)
    {attr : Attribute Prob} {xs : List (Attribute Prob)}
    (hrest : st.it.rest st.it.current = attr :: xs) {app' : App Prob} (cut : Bool)
    (hstay : ∀ p, st.app.AnchoredTo o p → app'.AnchoredTo o p)
    (hcut : cut = true → app'.AnchoredTo o (st.it.current + 1))
    (hroot : (∀ t ∈ attr.targets, t = 0) → app'.AnchoredTo o (st.it.current + 1)) (p : Nat)
    (hp : p ≠ 0) (hlt : p < app.views.length) : app'.AnchoredTo o p ∨
      ∃ attr ∈ (st.it.next gt cut).rest (p - 1), ∀ t ∈ attr.targets, t = 0 := by
  obtain hanchored | ⟨found, hfound, hzero⟩ := h.ahead p hp hlt
  · exact Or.inl (hstay p hanchored)
  · rw [h.valid.rest_next cut hend]
    by_cases hcurrent : p - 1 = st.it.current
    · have hpos : p = st.it.current + 1 := by omega
      rw [hcurrent, hrest] at hfound
      rw [if_pos hcurrent, hcurrent, hrest, hpos]
      obtain rfl | hlater := List.mem_cons.mp hfound
      · exact Or.inl (hroot hzero)
      · cases cut with
        | true => exact Or.inl (hcut rfl)
        | false => exact Or.inr ⟨found, hlater, hzero⟩
    · rw [if_neg hcurrent]
      exact Or.inr ⟨found, hfound, hzero⟩

/-- A round returns, keeps the invariant and every anchored view, and leaves fewer candidates. -/
theorem Invariant.step (h : Invariant model sort app o st) (hroot : app.Rooted)
    (hfuel : app.views.length ≤ fuel) (hend : st.it.isEnd = false) :
    ∃ st', st.step o fuel = some st' ∧ Invariant model sort app o st' ∧
      st'.it.left < st.it.left ∧ ∀ p, st.app.AnchoredTo o p → st'.app.AnchoredTo o p := by
  obtain ⟨_, attr, xs, hderef, hrest⟩ := MultiSortedIterator.rest_current h.valid hend
  obtain ⟨hlt, hproper⟩ := h.proper hroot (hrest ▸ List.mem_cons_self)
  have hsrc : attr.src = st.it.current + 1 := hproper.own
  rw [← hsrc, ← h.length] at hlt hproper
  have hrooted : st.app.Rooted := hroot.of_ids h.length h.ids
  have hfuel' : st.app.views.length ≤ fuel := h.length ▸ hfuel
  obtain ⟨apply, happly, hyes, hno⟩ := shouldApplyConstraint_spec hrooted h.free h.wired h.acyclic
    hproper hlt (by omega) hfuel'
  rw [Greedy.step, hderef, Option.bind_some, happly, Option.bind_some]
  cases apply with
  | false =>
    refine ⟨_, rfl, ⟨h.length, h.ids, h.free, h.wired, h.acyclic, h.values,
      h.valid.next false hend, ?_⟩, h.valid.left_next false hend, fun _ hp => hp⟩
    apply h.ahead_next hend hrest false (fun _ hp => hp) (fun hc => by cases hc)
    rw [← hsrc]
    exact hno rfl
  | true =>
    obtain ⟨hcirc, hkeep⟩ := hyes rfl
    have hlength := (App.length_applyAttribute st.app o attr.src attr).trans h.length
    have hids (p : Nat) := (App.idOf_applyAttribute st.app o attr.src attr p).trans (h.ids p)
    have hfree : (st.app.applyAttribute o attr.src attr).RootFree :=
      h.free.applyAttribute hlt (by omega)
    have hwired := h.wired.applyAttribute hlt hproper
    have hacyclic := App.acyclic_applyAttribute hlt hcirc h.acyclic
    have hstay (p : Nat) (hp : st.app.AnchoredTo o p) := hp.applyAttribute hlt hcirc hkeep
    obtain ⟨anchored, hanchored, hiff⟩ := App.isAnchored_spec (hroot.of_ids hlength hids) hwired
      hacyclic (p := attr.src) (by rwa [App.length_applyAttribute]) (hlength ▸ hfuel)
    simp only [↓reduceIte, hanchored, Option.map_some]
    refine ⟨_, rfl, ⟨hlength, hids, hfree, hwired, hacyclic, ?_, h.valid.next anchored hend,
      ?_⟩, h.valid.left_next anchored hend, hstay⟩
    · cases anchored <;> exact h.values
    · apply h.ahead_next hend hrest anchored hstay
      · rw [← hsrc]
        exact hiff.mp
      · intro hzero
        rw [← hsrc]
        exact App.anchoredTo_applyAttribute hlt hcirc fun t ht => .base (hzero t ht)

/-! ## Whole runs -/

variable (model sort o) in
/-- Every view has a centering candidate between the two edges of the root, wherever it lies. -/
theorem exists_root_candidate (hroot : app.Rooted) {view : View Prob} (hview : view ∈ app.views)
    (hpos : view.pos ≠ 0) :
    ∃ attr ∈ viewCandidates model sort app o view, ∀ t ∈ attr.targets, t = 0 := by
  obtain ⟨root, hmem, hzero⟩ := hroot.exists_root
  have hid : root.id ≠ view.id := by
    rw [Ne, ← hroot.pos_eq_iff hmem hview, hzero]
    exact hpos.symm
  obtain ⟨type, htype, hsides⟩ :
      ∃ type ∈ centerTypes o, type.sides = (some .start, some .end) := by
    cases o <;> decide
  have hcenter := (mem_centerTypes.mp htype).1
  have hkeep : ¬ (root.id = root.id ∧ Side.start = Side.end ∧
      centeringMargin toFloat type .start .end view root root ≠ 0) := by
    rintro ⟨_, hside, _⟩
    cases hside
  have hc := (centeringCandidate_eq_some hsides).mpr ⟨hkeep, rfl⟩
  have hgen := mem_genAttributes.mpr
    (Or.inr ⟨root, hmem, root, hmem, hid, hid, type, htype, Or.inl hc⟩)
  refine ⟨_, mem_viewCandidates.mpr ⟨_, hgen, rfl⟩, ?_⟩
  intro t ht
  simp only [Attribute.targets, Attribute.ofCenter, hcenter, Bool.false_eq_true, ↓reduceIte,
    Option.toList_some, List.mem_pair, hzero, or_self] at ht
  exact ht

variable (hroot : app.Rooted)
include hroot

variable (model sort) in
theorem start_invariant (hfree : app.RootFree) (hwired : app.Wired o)
    (hacyclic : Acyclic (app.targetsOf o)) (hviews : 1 < app.views.length) :
    Invariant model sort app o (start model sort app o) where
  length := rfl
  ids _ := rfl
  free := hfree
  wired := hwired
  acyclic := hacyclic
  values := rfl
  valid := by
    apply MultiSortedIterator.begin_valid
    intro hnil
    have hfirst := initializeBaseConstraints_getElem? hroot model sort o 0
    rw [hnil, List.getElem?_eq_getElem hviews] at hfirst
    cases hfirst
  ahead p hp hlt := by
    obtain ⟨view, hview, rfl⟩ := App.exists_view hlt
    obtain ⟨attr, hattr, hzero⟩ := exists_root_candidate model sort o hroot hview hp
    refine Or.inr ⟨attr, ?_, hzero⟩
    have hpos : view.pos - 1 + 1 = view.pos := by omega
    rw [start, MultiSortedIterator.rest_begin, initializeBaseConstraints_getElem? hroot, hpos,
      App.mem_views_iff.mp hview]
    exact hattr

variable (hfuel : app.views.length ≤ fuel)
include hfuel

/-- The invariant holds of every later state, and what was anchored stays so. -/
theorem Invariant.reaches {st' : Greedy Prob} (h : Invariant model sort app o st)
    (hreach : st.Reaches o fuel st') :
    Invariant model sort app o st' ∧ ∀ p, st.app.AnchoredTo o p → st'.app.AnchoredTo o p := by
  induction hreach with
  | refl => exact ⟨h, fun _ hp => hp⟩
  | next _ hend hstep ih =>
    obtain ⟨hinv, hstay⟩ := ih
    obtain ⟨st', hstep', hinv', _, hstay'⟩ := hinv.step hroot hfuel hend
    obtain rfl := Option.some.inj (hstep'.symm.trans hstep)
    exact ⟨hinv', fun p hp => hstay' p (hstay p hp)⟩

/-- The loop ends within a round for each candidate, with every view anchored. -/
theorem Invariant.loop {rounds : Nat} (h : Invariant model sort app o st)
    (hrounds : st.it.left ≤ rounds) :
    ∃ final, loop o fuel rounds st = some final ∧ Invariant model sort app o final ∧
      ∀ p < app.views.length, final.app.AnchoredTo o p := by
  have done {final : Greedy Prob} (hfinal : Invariant model sort app o final)
      (hend : final.it.isEnd = true) (p : Nat) (hlt : p < app.views.length) :
      final.app.AnchoredTo o p := by
    by_cases hp : p = 0
    · exact .base hp
    · obtain hanchored | ⟨attr, hattr, _⟩ := hfinal.ahead p hp hlt
      · exact hanchored
      · rw [(MultiSortedIterator.isEnd_iff hfinal.valid).mp hend] at hattr
        cases hattr
  induction rounds generalizing st with
  | zero =>
    cases hend : st.it.isEnd with
    | true => exact ⟨st, by rw [Greedy.loop, if_pos hend], h, done h hend⟩
    | false =>
      obtain ⟨_, _, _, hless, _⟩ := h.step hroot hfuel hend
      omega
  | succ rounds ih =>
    cases hend : st.it.isEnd with
    | true => exact ⟨st, by rw [Greedy.loop, if_pos hend], h, done h hend⟩
    | false =>
      obtain ⟨st', hstep, hinv, hless, _⟩ := h.step hroot hfuel hend
      obtain ⟨final, hloop, hfinal⟩ := ih hinv (by omega)
      refine ⟨final, ?_, hfinal⟩
      rw [Greedy.loop, if_neg (by simp [hend]), hstep, Option.bind_some, hloop]

variable (model sort) in
/-- Greedy synthesis succeeds whatever the probability model, from any acyclic attributes, such
as none. The graph is acyclic before every round, an anchored view stays anchored for the rest of
the run, and the loop ends, after at most one round for each candidate, with an attribute on
every view but the root, all of them anchored. -/
theorem greedy_synthesis_anchors (hfree : app.RootFree) (hwired : app.Wired o)
    (hacyclic : Acyclic (app.targetsOf o)) (hviews : 1 < app.views.length) :
    (∀ st, (start model sort app o).Reaches o fuel st → Acyclic (st.app.targetsOf o) ∧
      ∀ st', st.Reaches o fuel st' → ∀ p < app.views.length,
        st.app.isAnchored o fuel [] p = some true → st'.app.isAnchored o fuel [] p = some true) ∧
    ∀ rounds, (initializeBaseConstraints model sort app o).flatten.length ≤ rounds →
      ∃ final, synthesize model sort app o fuel rounds = some final ∧
        ∀ p, p ≠ 0 → p < app.views.length →
          (∃ attr, final.getAttribute o p = some attr) ∧
          final.isAnchored o fuel [] p = some true := by
  have hstart := start_invariant model sort hroot hfree hwired hacyclic hviews
  have anchored_iff {st : Greedy Prob} (h : Invariant model sort app o st) {p : Nat}
      (hlt : p < app.views.length) :
      st.app.isAnchored o fuel [] p = some true ↔ st.app.AnchoredTo o p := by
    obtain ⟨anchored, hanchored, hiff⟩ := App.isAnchored_spec (hroot.of_ids h.length h.ids) h.wired
      h.acyclic (h.length ▸ hlt) (h.length ▸ hfuel)
    rw [hanchored, Option.some.injEq, hiff]
  constructor
  · intro st hreach
    obtain ⟨hinv, _⟩ := hstart.reaches hroot hfuel hreach
    refine ⟨hinv.acyclic, ?_⟩
    intro st' hreach' p hlt hp
    obtain ⟨hinv', hstay⟩ := hinv.reaches hroot hfuel hreach'
    rw [anchored_iff hinv' hlt]
    exact hstay p ((anchored_iff hinv hlt).mp hp)
  · intro rounds hrounds
    obtain ⟨final, hloop, hinv, hall⟩ := hstart.loop hroot hfuel
      ((MultiSortedIterator.left_begin gt _).trans_le hrounds)
    refine ⟨final.app, by rw [synthesize, hloop, Option.map_some], ?_⟩
    intro p hp hlt
    obtain ⟨attr, hattr, _⟩ := (hall p hlt).exists_attribute hp
    exact ⟨⟨attr, hattr⟩, (anchored_iff hinv hlt).mpr (hall p hlt)⟩

end

/-- Without attributes there is nothing to keep in order. -/
theorem wired_of_bare {app : App Prob} {o : Orientation} (h : ∀ p, app.getAttribute o p = none) :
    app.Wired o ∧ Acyclic (app.targetsOf o) := by
  constructor
  · intro p attr hattr
    rw [h p] at hattr
    cases hattr
  · apply acyclic_of_rank fun _ => 0
    intro p t ht
    rw [App.targetsOf, h p] at ht
    cases ht

theorem sideBySide_bare (o : Orientation) (p : Nat) : sideBySide.getAttribute o p = none := by
  match p with
  | 0 => rfl
  | 1 => rfl
  | 2 => rfl
  | p + 3 => rfl

/-- Of the two views each ends up with an attribute and anchored. -/
theorem greedy_synthesis_anchors_sample :
    ∃ final, synthesize (fun _ _ => 0) (.insertion ℚ) sideBySide .horizontal 3 80 = some final ∧
      final.isAnchored .horizontal 3 [] 1 = some true ∧
      final.isAnchored .horizontal 3 [] 2 = some true := by
  obtain ⟨hwired, hacyclic⟩ := wired_of_bare (sideBySide_bare .horizontal)
  obtain ⟨final, hfinal, hall⟩ := (greedy_synthesis_anchors (fun _ _ => 0) (.insertion ℚ)
    sideBySide_rooted (o := .horizontal) (by decide : sideBySide.views.length ≤ 3)
    (fun o => sideBySide_bare o 0) hwired hacyclic (by decide)).2 80 (by decide +kernel)
  exact ⟨final, hfinal, (hall 1 (by decide) (by decide)).2, (hall 2 (by decide) (by decide)).2⟩

end Greedy
end InferUI
