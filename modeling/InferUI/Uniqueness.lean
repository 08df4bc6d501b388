import InferUI.Selection
import InferUI.SingleQuery

/-!
# The selected constraints determine the layout

Two models of the single query that agree on what is selected, on the margins and on the
biases agree on every position: the anchor variables order the views so that each one is placed
by views placed before.
-/

namespace InferUI
open Store
variable {Prob K : Type} [Field K] [LinearOrder K] [FloorRing K]

/-! ## One formula -/

section
variable [IsStrictOrderedRing K]

/-- How far an integer start is from the one that the rounded distance asks for. -/
theorem round_gap (bias : K) (l r marginStart marginEnd start size : Int) :
    roundReal2int (gap bias l r marginStart marginEnd start (start + size)) =
      ⌊(1 - bias) * (l + marginStart) + bias * (r - marginEnd) - bias * size + 1 / 2⌋ - start := by
  have hgap : gap bias l r marginStart marginEnd start (start + size) + 1 / 2 =
      (1 - bias) * (l + marginStart) + bias * (r - marginEnd) - bias * size + 1 / 2 -
        (start : Int) := by
    simp only [gap]
    push_cast
    ring
  rw [roundReal2int, hgap, Int.floor_sub_intCast]

/-- Rounding to zero leaves one integer start for a view of known size: the rounding interval
is half open. -/
theorem start_of_gap {bias : K} {l r marginStart marginEnd start size : Int}
    (h : roundReal2int (gap bias l r marginStart marginEnd start (start + size)) = 0) :
    start = ⌊(1 - bias) * (l + marginStart) + bias * (r - marginEnd) - bias * size + 1 / 2⌋ := by
  rw [round_gap] at h
  omega

/-- The formula of a constraint, together with the size of a view of fixed size, fixes both
edges of the source in terms of its targets, margins and bias. -/
theorem formula_determines {type : ConstraintType} {size : ViewSize} {src l : Z3View}
    {r : Option Z3View} {v w : Assignment K} {k : Int}
    (hrelational : type.isRelationalAnchor = true → r = none ∧ size = .fixed)
    (hcenter : type.isRelationalAnchor = false →
      ∃ r', r = some r' ∧ ∀ s, r'.edge s v = r'.edge s w)
    (hl : ∀ s, l.edge s v = l.edge s w)
    (hstart : src.marginStart v = src.marginStart w) (hend : src.marginEnd v = src.marginEnd w)
    (hbias : src.bias v = src.bias w)
    (hv : formula type size src l r v = true) (hw : formula type size src l r w = true)
    (hsizev : size = .fixed → src.positionStart v + k = src.positionEnd v)
    (hsizew : size = .fixed → src.positionStart w + k = src.positionEnd w) :
    src.positionStart v = src.positionStart w ∧ src.positionEnd v = src.positionEnd w := by
  obtain ⟨s, hsides, hrel, _⟩ | ⟨s, hsides, hrel, _⟩ | ⟨s, e, hsides, hrel, _⟩ := type.sides_cases
  · obtain ⟨rfl, rfl⟩ := hrelational hrel
    rw [formula_start hsides, decide_eq_true_eq, hl, hstart] at hv
    rw [formula_start hsides, decide_eq_true_eq] at hw
    have h1 := hsizev rfl
    have h2 := hsizew rfl
    omega
  · obtain ⟨rfl, rfl⟩ := hrelational hrel
    rw [formula_end hsides, decide_eq_true_eq, hl, hend] at hv
    rw [formula_end hsides, decide_eq_true_eq] at hw
    have h1 := hsizev rfl
    have h2 := hsizew rfl
    omega
  · obtain ⟨r', rfl, hr⟩ := hcenter hrel
    by_cases hsize : size = .fixed
    · subst hsize
      have h1 := hsizev rfl
      have h2 := hsizew rfl
      by_cases hsame : s = e ∧ l.pos = r'.pos
      · obtain ⟨rfl, hpos⟩ := hsame
        obtain ⟨_, _, gv⟩ := (formula_center_same hsides hpos v).mp hv
        obtain ⟨_, _, gw⟩ := (formula_center_same hsides hpos w).mp hw
        rw [← h1, hl, hr, hbias] at gv
        rw [← h2] at gw
        have := (start_of_gap gv).trans (start_of_gap gw).symm
        omega
      · obtain ⟨gv, _⟩ := (formula_center hsides hsame v).mp hv
        obtain ⟨gw, _⟩ := (formula_center hsides hsame w).mp hw
        rw [← h1, hl, hr, hbias, hstart, hend] at gv
        rw [← h2] at gw
        have := (start_of_gap gv).trans (start_of_gap gw).symm
        omega
    · obtain ⟨sv, ev⟩ := (formula_match hsides hsize src l r' v).mp hv
      obtain ⟨sw, ew⟩ := (formula_match hsides hsize src l r' w).mp hw
      rw [sv, sw, ev, ew, hl, hr, hstart, hend]
      exact ⟨rfl, rfl⟩

end

/-! ## All views -/

section
variable {app : App Prob}

/-- Two assignments that make the same choices: the selection booleans of the candidates, the
margins and the biases. -/
structure SameChoices (candidates : (o : Orientation) → CandidateConstraints app o)
    (v w : Assignment K) : Prop where
  select : ∀ o p, p ≠ 0 → p < app.views.length → ∀ attr ∈ (candidates o).getAttributes p,
    v.select (attributeName (convertViews app o 0) attr) =
      w.select (attributeName (convertViews app o 0) attr)
  marginStart : ∀ o, ∀ p < app.views.length,
    v.marginStart (uniqueId p o) = w.marginStart (uniqueId p o)
  marginEnd : ∀ o, ∀ p < app.views.length,
    v.marginEnd (uniqueId p o) = w.marginEnd (uniqueId p o)
  bias : ∀ o, ∀ p < app.views.length, v.bias (uniqueId p o) = w.bias (uniqueId p o)

/-- The query contains the selection of each orientation. -/
theorem singleQuery_selection {printed : Prob → K} {deviceApps : List (App Prob)} {opt : Bool}
    {candidates : (o : Orientation) → CandidateConstraints app o} {v : Assignment K}
    (h : Models (singleQueryAssertions printed deviceApps opt candidates) v) (o : Orientation) :
    Models (selectionAssertions printed (candidates o) opt) v := by
  simp only [singleQueryAssertions, addConstraintsSingleQuery, getAllAssumptions, models_append,
    models_flatMap, mem_orientations, forall_const] at h
  obtain ⟨hadd, hassume⟩ := h
  have ho := hadd o
  simp only [addOrientation, models_append] at ho
  obtain ⟨⟨⟨⟨_, hanchor⟩, hsyn⟩, hfin⟩, _⟩ := ho
  simp only [selectionAssertions, models_append]
  exact ⟨⟨⟨hanchor, hsyn⟩, hfin⟩, hassume o⟩

theorem singleQuery_position {printed : Prob → K} {deviceApps : List (App Prob)} {opt : Bool}
    {candidates : (o : Orientation) → CandidateConstraints app o} {v : Assignment K}
    (h : Models (singleQueryAssertions printed deviceApps opt candidates) v) (o : Orientation) :
    Models (addPositionConstraints (convertViews app o 0) true) v := by
  simp only [singleQueryAssertions, addConstraintsSingleQuery, models_append, models_flatMap,
    mem_orientations, forall_const, addOrientation] at h
  exact (h.1 o).1.1.1.1

/-- It also contains what is asserted of each device. -/
theorem singleQuery_device {printed : Prob → K} {deviceApps : List (App Prob)} {opt : Bool}
    {candidates : (o : Orientation) → CandidateConstraints app o} {v : Assignment K}
    (h : Models (singleQueryAssertions printed deviceApps opt candidates) v) (o : Orientation)
    {device : App Prob} {d : Nat} (hd : deviceApps[d]? = some device) :
    Models (addDevice (candidates o) device d) v := by
  simp only [singleQueryAssertions, addConstraintsSingleQuery, models_append, models_flatMap,
    mem_orientations, forall_const] at h
  have ho := h.1 o
  simp only [addOrientation, models_append] at ho
  exact (models_flatMap_zipIdx (addDevice (candidates o))).mp ho.2 d device hd

/-- What a selected candidate says on a device. -/
theorem genAttribute_selected {o : Orientation} {device : App Prob} {d p : Nat}
    {attr : Attribute Prob} {v : Assignment K} (hn : device.views.length = app.views.length)
    (hproper : attr.Proper app.views.length o p) (hlt : p < app.views.length)
    (h : genAttribute app o (convertViews device o d) attr v = true)
    (hsel : v.select (attributeName (convertViews app o 0) attr) = true) :
    attributeValue (convertViews device o d) attr v = true ∧
      if attr.viewSize = .fixed then
        (findView (convertViews device o d) p).positionStart v + (app.views[p]?).elim 0 (·.size o) =
          (findView (convertViews device o d) p).positionEnd v
      else 0 ≤ (findView (convertViews device o d) p).positionEnd v -
        (findView (convertViews device o d) p).positionStart v := by
  rw [genAttribute, implies_eq_true, attributeName_device hn hproper hlt] at h
  obtain ⟨hvalue, hsize⟩ := Bool.and_eq_true_iff.mp (h hsel)
  refine ⟨hvalue, ?_⟩
  rw [hproper.own, findView_pos (hn ▸ hlt)] at hsize
  split at hsize
  · exact (if_pos ‹_›).mpr (of_decide_eq_true hsize)
  · exact (if_neg ‹_›).mpr (of_decide_eq_true hsize)

variable [IsStrictOrderedRing K]

/-- A selected candidate of two models places its view alike when its targets are placed
alike. -/
theorem placed_alike {candidates : (o : Orientation) → CandidateConstraints app o} {o : Orientation}
    {device : App Prob} {d p : Nat} {attr : Attribute Prob} {v w : Assignment K}
    (hn : device.views.length = app.views.length) (hproper : attr.Proper app.views.length o p)
    (hlt : p < app.views.length) (hsame : SameChoices candidates v w)
    (hv : genAttribute app o (convertViews device o d) attr v = true)
    (hw : genAttribute app o (convertViews device o d) attr w = true)
    (hselv : v.select (attributeName (convertViews app o 0) attr) = true)
    (hselw : w.select (attributeName (convertViews app o 0) attr) = true)
    (htargets : ∀ t ∈ attr.targets, ∀ s, (findView (convertViews device o d) t).edge s v =
      (findView (convertViews device o d) t).edge s w) (s : Side) :
    (findView (convertViews device o d) p).edge s v =
      (findView (convertViews device o d) p).edge s w := by
  obtain ⟨valueV, sizeV⟩ := genAttribute_selected hn hproper hlt hv hselv
  obtain ⟨valueW, sizeW⟩ := genAttribute_selected hn hproper hlt hw hselw
  rw [attributeValue, hproper.own] at valueV valueW
  have hid := findView_uniqueId (o := o) (d := d) (hn ▸ hlt : p < device.views.length)
  have placed := formula_determines
    (fun hrel => by
      obtain ⟨hnone, hsize⟩ := hproper.relational hrel
      exact ⟨by rw [hnone]; rfl, hsize⟩)
    (fun hcen => by
      obtain ⟨r, _, hsome⟩ := hproper.center hcen
      exact ⟨_, by rw [hsome]; rfl, htargets r (Attribute.secondary_mem_targets hcen hsome)⟩)
    (htargets _ attr.primary_mem_targets)
    (by rw [Z3View.marginStart, Z3View.marginStart, hid]; exact hsame.marginStart o p hlt)
    (by rw [Z3View.marginEnd, Z3View.marginEnd, hid]; exact hsame.marginEnd o p hlt)
    (by rw [Z3View.bias, Z3View.bias, hid]; exact hsame.bias o p hlt)
    valueV valueW (fun hsize => by rwa [if_pos hsize] at sizeV)
    (fun hsize => by rwa [if_pos hsize] at sizeW)
  cases s with
  | start => exact placed.1
  | «end» => exact placed.2

/-- In a query for several devices the selected constraints, the margins and the biases leave
one position for every view on every device; device 0 is the reference. -/
theorem positions_determined (printed : Prob → K) (deviceApps : List (App Prob)) (opt : Bool)
    (candidates : (o : Orientation) → CandidateConstraints app o)
    (hviews : ∀ device ∈ deviceApps, device.views.length = app.views.length)
    {v w : Assignment K} (hv : Models (singleQueryAssertions printed deviceApps opt candidates) v)
    (hw : Models (singleQueryAssertions printed deviceApps opt candidates) w)
    (hsame : SameChoices candidates v w) (o : Orientation) {p d : Nat}
    (hp : p < app.views.length) (hd : d ≤ deviceApps.length) :
    v.positionStart (uniqueId p o) d = w.positionStart (uniqueId p o) d ∧
      v.positionEnd (uniqueId p o) d = w.positionEnd (uniqueId p o) d := by
  cases d with
  | zero =>
    have hget := List.getElem?_eq_getElem hp
    obtain ⟨sv, ev⟩ := (models_addPositionConstraints.mp (singleQuery_position hv o) _ _ hget).2.1
    obtain ⟨sw, ew⟩ := (models_addPositionConstraints.mp (singleQuery_position hw o) _ _ hget).2.1
    exact ⟨sv.trans sw.symm, ev.trans ew.symm⟩
  | succ d =>
    have hget := List.getElem?_eq_getElem (Nat.lt_of_succ_le hd)
    generalize deviceApps[d] = device at hget
    have hn := hviews device (List.mem_of_getElem? hget)
    have deviceV := singleQuery_device hv o hget
    have deviceW := singleQuery_device hw o hget
    simp only [addDevice, models_append] at deviceV deviceW
    obtain ⟨⟨_, rootV⟩, genV⟩ := deviceV
    obtain ⟨⟨_, rootW⟩, genW⟩ := deviceW
    -- along the anchor variables of one of the models, which are below each other at targets
    have order : ∀ (n : Nat) (p : Nat), p < app.views.length →
        (v.anchor (uniqueId p o)).toNat < n →
        ∀ s, (findView (convertViews device o (d + 1)) p).edge s v =
          (findView (convertViews device o (d + 1)) p).edge s w := by
      intro n
      induction n with
      | zero => exact fun _ _ h => absurd h (Nat.not_lt_zero _)
      | succ n ih =>
        intro p hlt hrank
        by_cases hroot : p = 0
        · subst hroot
          simp only [assertRoot, Z3View.assertPosition, models_cons, decide_eq_true_eq,
            models_nil, and_true] at rootV rootW
          intro s
          cases s with
          | start => exact rootV.1.trans rootW.1.symm
          | «end» => exact rootV.2.trans rootW.2.symm
        · obtain ⟨attr, chosen⟩ := exists_chosen (singleQuery_selection hv o) hroot hlt
          have hproper := chosen.proper
          have hselw := chosen.selected
          rw [hsame.select o p hroot hlt attr chosen.mem] at hselw
          have hgenv := models_addGenAttributes.mp genV p hroot (hn ▸ hlt) attr chosen.mem
          have hgenw := models_addGenAttributes.mp genW p hroot (hn ▸ hlt) attr chosen.mem
          apply placed_alike hn hproper hlt hsame hgenv hgenw chosen.selected hselw
          intro t ht
          have hbelow := chosen.anchor_lt t ht
          exact ih t (hproper.targets_lt ht) (by omega)
    have hedge := order _ p hp (Nat.lt_succ_self _)
    have hview := findView_eq (o := o) (d := d + 1)
      (List.getElem?_eq_getElem (hn ▸ hp : p < device.views.length))
    rw [hview] at hedge
    exact ⟨hedge .start, hedge .end⟩

end

/-- The view of the sample on its device, in two models that differ in an unused cost. -/
theorem positions_determined_sample :
    let w : Assignment ℚ := { sampleModel with cost := fun _ => 1 }
    w.positionEnd (uniqueId 1 .vertical) 1 =
      sampleModel.positionEnd (uniqueId 1 .vertical) 1 := by
  intro w
  have hw : Models (singleQueryAssertions id [sampleDevice] false
      (initialCandidates sampleCache)) w := by
    decide +kernel
  have hsame : SameChoices (initialCandidates sampleCache) w sampleModel :=
    ⟨fun _ _ _ _ _ _ => rfl, fun _ _ _ => rfl, fun _ _ _ => rfl, fun _ _ _ => rfl⟩
  exact (positions_determined id [sampleDevice] false (initialCandidates sampleCache) (by decide)
    hw sampleModel_models hsame .vertical (by decide) (by decide)).2

end InferUI
