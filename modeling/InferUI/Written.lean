import InferUI.Anchored
import InferUI.Enumeration
import InferUI.MultiDevice
import InferUI.Uniqueness

/-!
# What is written still holds

A written attribute has margins that went through a cut-off and a shift, and a bias that went
through a short decimal string. This file says when it still satisfies its own formula, on the
reference and on every device, at the positions of the model.
-/

namespace InferUI
open Store
variable {Prob K : Type}

section
variable [Field K]

/-- The model with the numbers of an attribute in place of those of its source. -/
def Assignment.withAttribute (v : Assignment K) (src : Nat) (attr : Attribute Prob) :
    Assignment K :=
  { v with
    marginStart := Function.update v.marginStart src attr.valuePrimary
    marginEnd := Function.update v.marginEnd src attr.valueSecondary
    bias := Function.update v.bias src (attr.bias : K) }

section
variable (view src : Z3View) (v : Assignment K) (attr : Attribute Prob) (u : Nat)

@[simp] theorem positionStart_withAttribute :
    view.positionStart (v.withAttribute u attr) = view.positionStart v := rfl

@[simp] theorem positionEnd_withAttribute :
    view.positionEnd (v.withAttribute u attr) = view.positionEnd v := rfl

@[simp] theorem edge_withAttribute (s : Side) :
    view.edge s (v.withAttribute u attr) = view.edge s v := by cases s <;> rfl

@[simp] theorem marginStart_withAttribute :
    src.marginStart (v.withAttribute src.uniqueId attr) = attr.valuePrimary :=
  Function.update_self ..

@[simp] theorem marginEnd_withAttribute :
    src.marginEnd (v.withAttribute src.uniqueId attr) = attr.valueSecondary :=
  Function.update_self ..

@[simp] theorem bias_withAttribute :
    src.bias (v.withAttribute src.uniqueId attr) = (attr.bias : K) :=
  Function.update_self ..

end

variable [LinearOrder K] [FloorRing K]

/-- An attribute satisfies the formula of its own type and size on one screen. -/
def Attribute.HoldsAt (attr : Attribute Prob) (views : List Z3View) (v : Assignment K) : Prop :=
  attributeValue views attr (v.withAttribute (findView views attr.src).uniqueId attr) = true

instance (attr : Attribute Prob) (views : List Z3View) (v : Assignment K) :
    Decidable (attr.HoldsAt views v) := inferInstanceAs (Decidable (_ = true))

/-- The margins that a type reads are below the cut-off. -/
def SmallMargins (type : ConstraintType) (src : Z3View) (v : Assignment K) : Prop :=
  (type.splitAnchor.1.isSome = true → src.marginStart v < 10000) ∧
    (type.splitAnchor.2.isSome = true → src.marginEnd v < 10000)

/-- The decimal string keeps the bias, and the shift of the margins does not need it. -/
def PlainBias (type : ConstraintType) (size : ViewSize) (src : Z3View) (v : Assignment K) : Prop :=
  type.isCenterAnchor = true → size = .fixed → (src.getBias v : K) = src.bias v ∧
    (src.bias v = 1 / 2 ∨ src.marginStart v = 0 ∨ src.marginEnd v = 0)

/-- The numbers of `attr` are those that are written for its source. -/
structure WrittenFor (attr : Attribute Prob) (src : Z3View) (v : Assignment K) : Prop where
  margins : (attr.valuePrimary, attr.valueSecondary) = src.writtenMargins v attr.type attr.viewSize
  bias : attr.bias = src.getBias v

end

/-! ## The numbers -/

theorem splitAnchor_isSome (type : ConstraintType) :
    type.splitAnchor.1.isSome = type.sides.1.isSome ∧
      type.splitAnchor.2.isSome = type.sides.2.isSome := by
  cases type <;> exact ⟨rfl, rfl⟩

/-- Margins that are not cut off are written as they are. -/
theorem getMargins_eq {type : ConstraintType} {src : Z3View} {v : Assignment K}
    (h : SmallMargins type src v) :
    src.getMargins v type = (if type.sides.1.isSome = true then src.marginStart v else 0,
      if type.sides.2.isSome = true then src.marginEnd v else 0) := by
  obtain ⟨hstart, hend⟩ := h
  obtain ⟨h1, h2⟩ := splitAnchor_isSome type
  rw [h1] at hstart
  rw [h2] at hend
  rw [Z3View.getMargins]
  simp only [h1, h2]
  congr 1
  · split
    · rename_i hc
      rw [if_pos hc.1]
    · rename_i hc
      rw [if_neg fun hs => hc ⟨hs, hstart hs⟩]
  · split
    · rename_i hc
      rw [if_pos hc.1]
    · rename_i hc
      rw [if_neg fun hs => hc ⟨hs, hend hs⟩]

/-- Centering on the same gap is a matter of the difference of the margins only when the bias is
one half. -/
theorem gap_shift [Field K] [CharZero K] (l r marginStart marginEnd start «end» m : Int) :
    gap (1 / 2 : K) l r (marginStart - m) (marginEnd - m) start «end» =
      gap (1 / 2 : K) l r marginStart marginEnd start «end» := by
  simp only [gap]
  push_cast
  ring

/-- The shift of the margins of a centering constraint does not move the gap it rounds. -/
theorem gap_adjusted [Field K] [CharZero K] {src : Z3View} {v : Assignment K}
    (hplain : src.bias v = 1 / 2 ∨ src.marginStart v = 0 ∨ src.marginEnd v = 0)
    (hstart : 0 ≤ src.marginStart v) (hend : 0 ≤ src.marginEnd v) (l r start «end» : Int) :
    let margins := adjustMargins (src.marginStart v, src.marginEnd v)
    gap (src.bias v) l r margins.1 margins.2 start «end» =
      gap (src.bias v) l r (src.marginStart v) (src.marginEnd v) start «end» := by
  simp only [adjustMargins]
  obtain hbias | hzero := hplain
  · rw [hbias, gap_shift]
  · have hmin : min (src.marginStart v) (src.marginEnd v) = 0 := by omega
    rw [hmin, Int.sub_zero, Int.sub_zero]

variable [Field K] [LinearOrder K] [FloorRing K]

/-! ## The formulas -/

section
variable {attr : Attribute Prob} {src l : Z3View} {r : Option Z3View} {v : Assignment K}

/-- The numbers that are written satisfy whatever formula those of the model do, when none is
cut off and the bias is plain. -/
theorem formula_written (hwritten : WrittenFor attr src v)
    (hrelational : attr.type.isRelationalAnchor = true → r = none ∧ attr.viewSize = .fixed)
    (hcenter : attr.type.isRelationalAnchor = false → ∃ r', r = some r')
    (hsmall : SmallMargins attr.type src v) (hplain : PlainBias attr.type attr.viewSize src v)
    (hstart : 0 ≤ src.marginStart v) (hend : 0 ≤ src.marginEnd v)
    (h : formula attr.type attr.viewSize src l r v = true) :
    formula attr.type attr.viewSize src l r (v.withAttribute src.uniqueId attr) = true := by
  have hmargins := hwritten.margins
  rw [Z3View.writtenMargins, getMargins_eq hsmall] at hmargins
  obtain ⟨s, hs, hrel, _⟩ | ⟨s, hs, hrel, _⟩ | ⟨s, e, hs, hrel, _⟩ := attr.type.sides_cases
  · obtain ⟨rfl, hsize⟩ := hrelational hrel
    simp only [hs, ConstraintType.isCenterAnchor, hrel, Option.isSome_some, Option.isSome_none,
      Bool.not_true, Bool.false_eq_true, false_and, ↓reduceIte, Prod.mk.injEq] at hmargins
    rw [hsize] at h ⊢
    rw [formula_start hs, decide_eq_true_eq] at h ⊢
    simpa [hmargins.1] using h
  · obtain ⟨rfl, hsize⟩ := hrelational hrel
    simp only [hs, ConstraintType.isCenterAnchor, hrel, Option.isSome_some, Option.isSome_none,
      Bool.not_true, Bool.false_eq_true, false_and, ↓reduceIte, Prod.mk.injEq] at hmargins
    rw [hsize] at h ⊢
    rw [formula_end hs, decide_eq_true_eq] at h ⊢
    simpa [hmargins.2] using h
  · obtain ⟨r', rfl⟩ := hcenter hrel
    have hcen : attr.type.isCenterAnchor = true := by simp [ConstraintType.isCenterAnchor, hrel]
    simp only [hs, hcen, Option.isSome_some, ↓reduceIte, true_and] at hmargins
    by_cases hsize : attr.viewSize = .fixed
    · obtain ⟨hkept, hshift⟩ := hplain hcen hsize
      have hexact : (attr.bias : K) = src.bias v := by
        rw [hwritten.bias, hkept]
      rw [if_pos hsize, adjustMargins, Prod.mk.injEq] at hmargins
      rw [hsize] at h ⊢
      by_cases hsame : s = e ∧ l.pos = r'.pos
      · obtain ⟨rfl, hpos⟩ := hsame
        rw [formula_center_same hs hpos] at h ⊢
        obtain ⟨h1, h2, hgap⟩ := h
        simp only [marginStart_withAttribute, marginEnd_withAttribute, bias_withAttribute,
          edge_withAttribute, positionStart_withAttribute, positionEnd_withAttribute, hexact]
        exact ⟨by omega, by omega, hgap⟩
      · rw [formula_center hs hsame] at h ⊢
        obtain ⟨hgap, hroot⟩ := h
        simp only [marginStart_withAttribute, marginEnd_withAttribute, bias_withAttribute,
          edge_withAttribute, positionStart_withAttribute, positionEnd_withAttribute, hexact]
        constructor
        · rw [hmargins.1, hmargins.2]
          have hshifted := gap_adjusted hshift hstart hend (l.edge s v) (r'.edge e v)
            (src.positionStart v) (src.positionEnd v)
          rw [adjustMargins] at hshifted
          rw [hshifted]
          exact hgap
        · intro h1 h2 h3 h4
          have := hroot h1 h2 h3 h4
          omega
    · rw [if_neg hsize, Prod.mk.injEq] at hmargins
      rw [formula_match hs hsize] at h ⊢
      simpa [hmargins.1, hmargins.2] using h

end

/-! ## The screens of a query -/

/-- The views of the reference and of the devices, under their device ids. -/
def screens (app : App Prob) (deviceApps : List (App Prob)) (o : Orientation) :
    List (List Z3View) :=
  convertViews app o 0 :: deviceApps.zipIdx.map fun device =>
    convertViews device.1 o (device.2 + 1)

theorem mem_screens {app : App Prob} {deviceApps : List (App Prob)} {o : Orientation}
    {views : List Z3View} :
    views ∈ screens app deviceApps o ↔ views = convertViews app o 0 ∨
      ∃ d device, deviceApps[d]? = some device ∧ views = convertViews device o (d + 1) := by
  rw [screens, List.mem_cons, List.mem_map]
  apply or_congr Iff.rfl
  constructor
  · rintro ⟨⟨device, d⟩, hd, rfl⟩
    exact ⟨d, device, List.mk_mem_zipIdx_iff_getElem?.mp hd, rfl⟩
  · rintro ⟨d, device, hd, rfl⟩
    exact ⟨(device, d), List.mk_mem_zipIdx_iff_getElem?.mpr hd, rfl⟩

section
variable [Zero Prob] {app device : App Prob} {o : Orientation} {d p : Nat} {v : Assignment K}

/-- Only the margins, the probability and the bias of a candidate are replaced. -/
theorem attributeValue_written (attr : Attribute Prob) (view : Z3View) (views : List Z3View) :
    attributeValue views (attr.written view v) = (attributeValue views attr : Expr K) := rfl

theorem writtenFor_written {attr : Attribute Prob} {view src : Z3View}
    (h : src.uniqueId = view.uniqueId) : WrittenFor (attr.written view v) src v := by
  have hstart : src.marginStart v = view.marginStart v := congrArg v.marginStart h
  have hend : src.marginEnd v = view.marginEnd v := congrArg v.marginEnd h
  have hmargins : src.writtenMargins v attr.type attr.viewSize =
      view.writtenMargins v attr.type attr.viewSize := by
    rw [Z3View.writtenMargins, Z3View.getMargins, hstart, hend]
    rfl
  have hbias : src.getBias v = view.getBias v := by
    rw [Z3View.getBias, Z3View.bias, h]
    rfl
  exact ⟨hmargins.symm, hbias.symm⟩

/-- A candidate that holds on a screen holds there with the numbers that are written. -/
theorem written_holdsAt {attr : Attribute Prob} (hn : device.views.length = app.views.length)
    (hproper : attr.Proper app.views.length o p) (hlt : p < app.views.length)
    (hsmall : SmallMargins attr.type (findView (convertViews app o 0) p) v)
    (hplain : PlainBias attr.type attr.viewSize (findView (convertViews app o 0) p) v)
    (hstart : 0 ≤ v.marginStart (uniqueId p o)) (hend : 0 ≤ v.marginEnd (uniqueId p o))
    (h : attributeValue (convertViews device o d) attr v = true) :
    (attr.written (findView (convertViews app o 0) p) v).HoldsAt (convertViews device o d) v := by
  have hid : (findView (convertViews device o d) p).uniqueId =
      (findView (convertViews app o 0) p).uniqueId := by
    rw [findView_uniqueId hlt, findView_uniqueId (hn ▸ hlt)]
  have hown := findView_uniqueId (o := o) (d := d) (hn ▸ hlt : p < device.views.length)
  simp only [SmallMargins, PlainBias, Z3View.getBias, Z3View.bias, Z3View.marginStart,
    Z3View.marginEnd, ← hid] at hsmall hplain
  rw [attributeValue, hproper.own] at h
  rw [Attribute.HoldsAt, attributeValue_written, attributeValue]
  simp only [Attribute.written, hproper.own]
  apply formula_written (writtenFor_written hid) _ _ hsmall hplain _ _ h
  · intro hrel
    obtain ⟨hnone, hsize⟩ := hproper.relational hrel
    exact ⟨by rw [hnone]; rfl, hsize⟩
  · intro hcen
    obtain ⟨r, _, hsome⟩ := hproper.center hcen
    exact ⟨_, by rw [hsome]; rfl⟩
  · rw [Z3View.marginStart, hown]
    exact hstart
  · rw [Z3View.marginEnd, hown]
    exact hend

/-- Each non-root view has an attribute whose constraint is selected. With small margins, and a
plain bias where it is free, it holds on every screen with the numbers that are written. -/
def WrittenHolds (app layout : App Prob) (deviceApps : List (App Prob)) (o : Orientation)
    (v : Assignment K) (fixedBias : Bool) : Prop :=
  ∀ p, p ≠ 0 → p < app.views.length → ∃ attr, layout.getAttribute o p = some attr ∧
    attr.Proper app.views.length o p ∧
    v.select (attributeName (convertViews app o 0) attr) = true ∧
    let src := findView (convertViews app o 0) p
    (SmallMargins attr.type src v → (fixedBias = false → PlainBias attr.type attr.viewSize src v) →
      ∀ views ∈ screens app deviceApps o, attr.HoldsAt views v)

/-- `attr` is selected for view `p`, written for it, and holds on every screen in the model. -/
structure WrittenFrom (app layout : App Prob) (deviceApps : List (App Prob)) (o : Orientation)
    (v : Assignment K) (p : Nat) (attr : Attribute Prob) : Prop where
  proper : attr.Proper app.views.length o p
  written : layout.getAttribute o p = some (attr.written (findView (convertViews app o 0) p) v)
  selected : v.select (attributeName (convertViews app o 0) attr) = true
  reference : attributeValue (convertViews app o 0) attr v = true
  device : ∀ d device, deviceApps[d]? = some device →
    attributeValue (convertViews device o (d + 1)) attr v = true

end

/-! ## The callers -/

section
variable [Zero Prob] {app layout : App Prob} {deviceApps : List (App Prob)} {o : Orientation}
variable {v : Assignment K}

/-- The selected candidate of a view, with what the devices say of it. -/
theorem Chosen.writtenFrom {c : CandidateConstraints app o} {p : Nat} {attr : Attribute Prob}
    (h : Chosen c v p attr) (hp : p ≠ 0) (hlt : p < app.views.length)
    (hviews : ∀ device ∈ deviceApps, device.views.length = app.views.length)
    (hdevices : ∀ d device, deviceApps[d]? = some device →
      Models (addGenAttributes (convertViews device o (d + 1)) c) v)
    (hwritten : layout.getAttribute o p =
      some (attr.written (findView (convertViews app o 0) p) v)) :
    WrittenFrom app layout deviceApps o v p attr where
  proper := h.proper
  written := hwritten
  selected := h.selected
  reference := h.value
  device d device hd := by
    have hn := hviews device (List.mem_of_getElem? hd)
    have hgen := models_addGenAttributes.mp (hdevices d device hd) p hp (hn ▸ hlt) attr h.mem
    exact (genAttribute_selected hn h.proper hlt hgen h.selected).1

theorem getAttribute_assigned {constraints : Nat → List ConstraintData} {p : Nat} (hp : p ≠ 0)
    (hlt : p < app.views.length) {attr : Attribute Prob}
    (h : assigned (convertViews app o 0) constraints v p = some attr) :
    (assignModels (convertViews app o 0) constraints o v app).getAttribute o p = some attr := by
  rw [getAttribute_assignModels rfl, if_pos ⟨rfl, hp, hlt⟩, h, Option.some_or]

/-- In a model of an enumeration each view has a selected entry, which is written. -/
theorem exists_enumerable (h : Models (synthesizeAssertions app o) v) {p : Nat} (hp : p ≠ 0)
    (hlt : p < app.views.length) : ∃ attr : Attribute Prob,
      attr.Enumerable app.views.length o p ∧
      v.select (attributeName (convertViews app o 0) attr) = true ∧
      assigned (convertViews app o 0) (synthesizeNames K app o) v p =
        some (attr.written (findView (convertViews app o 0) p) v) := by
  simp only [synthesizeAssertions, models_append] at h
  obtain ⟨⟨_, hone⟩, hassume⟩ := h
  obtain ⟨data, hdata, hsel, _⟩ := exactlyOne_member (exactlyOne_of_assumed hone hassume hp hlt)
  have hfound : ((synthesizeNames K app o p).find? v.select).isSome := by
    rw [List.find?_isSome]
    exact ⟨data, hdata, hsel⟩
  obtain ⟨first, hfirst⟩ := Option.isSome_iff_exists.mp hfound
  obtain ⟨entry, hentry, rfl⟩ := List.mem_map.mp (List.mem_of_find?_eq_some hfirst)
  obtain ⟨attr, hattr, hname, _⟩ := enumerable_of_mem hlt hentry
  refine ⟨attr, hattr, hname ▸ List.find?_some hfirst, ?_⟩
  rw [assigned, hfirst, Option.map_some, hname, assignedAttribute_eq hattr.proper hlt]

variable [IsStrictOrderedRing K]

/-- One half goes through the decimal string and the `float` unchanged. -/
theorem getBias_half {src : Z3View} {v : Assignment K} (h : src.bias v = 1 / 2) :
    src.getBias v = 1 / 2 := by
  have hscaled : src.bias v * 10000 = ((5000 : Int) : K) := by
    rw [h]
    norm_num
  have hdecimal : getDecimal (src.bias v) = 1 / 2 := by
    rw [getDecimal, if_pos (by rw [h]; positivity), hscaled, Int.floor_intCast]
    norm_num
  rw [Z3View.getBias, hdecimal]
  decide +kernel

theorem plainBias_half {type : ConstraintType} {size : ViewSize} {src : Z3View} {v : Assignment K}
    (h : src.bias v = 1 / 2) : PlainBias type size src v := by
  intro _ _
  refine ⟨?_, Or.inl h⟩
  rw [getBias_half h, h]
  norm_num

theorem writtenHolds_of_written {fixedBias : Bool}
    (hviews : ∀ device ∈ deviceApps, device.views.length = app.views.length)
    (hposition : Models (addPositionConstraints (convertViews app o 0) fixedBias) v)
    (h : ∀ p, p ≠ 0 → p < app.views.length → ∃ attr, WrittenFrom app layout deviceApps o v p attr) :
    WrittenHolds app layout deviceApps o v fixedBias := by
  intro p hp hlt
  obtain ⟨attr, hattr⟩ := h p hp hlt
  have hproper := hattr.proper
  refine ⟨_, hattr.written, ⟨hproper.own, hproper.orientation, hproper.primary,
    hproper.relational, hproper.center⟩, hattr.selected, ?_⟩
  intro src hsmall hplain views hscreen
  obtain ⟨⟨hstart, hend⟩, _, hbias⟩ :=
    models_addPositionConstraints.mp hposition p _ (List.getElem?_eq_getElem hlt)
  have hplain : PlainBias attr.type attr.viewSize src v := by
    cases fixedBias with
    | true =>
      apply plainBias_half
      rw [Z3View.bias, findView_uniqueId hlt]
      exact hbias
    | false => exact hplain rfl
  obtain rfl | ⟨d, device, hd, rfl⟩ := mem_screens.mp hscreen
  · exact written_holdsAt rfl hproper hlt hsmall hplain hstart hend hattr.reference
  · exact written_holdsAt (hviews device (List.mem_of_getElem? hd)) hproper hlt hsmall hplain
      hstart hend (hattr.device d device hd)

/-- An enumeration on the reference and on every device. -/
theorem writtenHolds_enumerated
    (hviews : ∀ device ∈ deviceApps, device.views.length = app.views.length)
    (h : Models (synthesizeMultiDeviceAssertions app deviceApps o) v) :
    WrittenHolds app (assignModels (convertViews app o 0) (synthesizeNames K app o) o v app)
      deviceApps o v false := by
  obtain ⟨hreference, hdevices⟩ := models_synthesizeMultiDevice.mp h
  have hparts := hreference
  simp only [synthesizeAssertions, models_append] at hparts
  obtain ⟨⟨⟨⟨hposition, _⟩, henumerated⟩, _⟩, _⟩ := hparts
  apply writtenHolds_of_written hviews hposition
  intro p hp hlt
  obtain ⟨attr, hattr, hsel, hassigned⟩ := exists_enumerable hreference hp hlt
  refine ⟨attr, hattr.proper, getAttribute_assigned hp hlt hassigned, hsel,
    enumerable_holds hattr hp hlt henumerated hsel, ?_⟩
  intro d device hd
  have hn := hviews device (List.mem_of_getElem? hd)
  have hdevice := hdevices d device hd
  simp only [addEnumerated, models_append] at hdevice
  rw [← attributeName_device hn hattr.proper hlt] at hsel
  exact enumerable_holds (hn ▸ hattr) hp (hn ▸ hlt) hdevice.2 hsel

/-- Whatever a model selects is written so that it holds with the numbers that are written, on
the reference and on every device, when no margin it reads reaches the cut-off and, where the
bias is free, the bias is kept and the shift of the margins does not move it. -/
theorem written_attributes_hold (app : App Prob) (deviceApps : List (App Prob))
    (hviews : ∀ device ∈ deviceApps, device.views.length = app.views.length) :
    (∀ (printed : Prob → K) (opt : Bool) (c : (o : Orientation) → CandidateConstraints app o)
      (v : Assignment K), Models (singleQueryAssertions printed deviceApps opt c) v →
      ∀ o, WrittenHolds app (writeLayout c fun _ => v) deviceApps o v true) ∧
    (∀ (printed : Prob → K) (userInput robust opt : Bool) (o : Orientation)
      (c : CandidateConstraints app o) (v : Assignment K),
      Models (multiDeviceAssertions printed deviceApps userInput robust opt c) v →
      WrittenHolds app (assignModels (convertViews app o 0) (selectionNames c) o v app) deviceApps
        o v true) ∧
    (∀ (o : Orientation) (v : Assignment K), Models (synthesizeAssertions app o) v →
      WrittenHolds app (assignModels (convertViews app o 0) (synthesizeNames K app o) o v app) []
        o v false) ∧
    (∀ (o : Orientation) (v : Assignment K),
      Models (synthesizeMultiDeviceAssertions app deviceApps o) v →
      WrittenHolds app (assignModels (convertViews app o 0) (synthesizeNames K app o) o v app)
        deviceApps o v false) := by
  refine ⟨?_, ?_, ?_, fun o v h => writtenHolds_enumerated hviews h⟩
  · intro printed opt c v h o
    apply writtenHolds_of_written hviews (singleQuery_position h o)
    intro p hp hlt
    obtain ⟨attr, chosen, hwritten⟩ := exists_written (v := fun _ => v)
      (fun o => singleQuery_selection h o) o hp hlt
    refine ⟨attr, chosen.writtenFrom hp hlt hviews ?_ hwritten⟩
    intro d device hd
    have hdevice := singleQuery_device h o hd
    simp only [addDevice, models_append] at hdevice
    exact hdevice.2
  · intro printed userInput robust opt o c v h
    obtain ⟨hposition, hselection, hdevices⟩ := models_multiDevice.mp h
    apply writtenHolds_of_written hviews hposition
    intro p hp hlt
    obtain ⟨attr, chosen⟩ := exists_chosen hselection hp hlt
    refine ⟨attr, chosen.writtenFrom hp hlt hviews ?_
      (getAttribute_assigned hp hlt (chosen.assigned_eq hp hlt))⟩
    intro d device hd
    have hdevice := hdevices d device hd
    simp only [addMultiDevice, models_append] at hdevice
    exact hdevice.2
  · intro o v h
    have hnone : Models (synthesizeMultiDeviceAssertions app [] o) v := by
      simpa [synthesizeMultiDeviceAssertions] using h
    exact writtenHolds_enumerated (by simp) hnone

end

/-- The view of the sample, on the reference and on its device. -/
theorem written_attributes_hold_sample :
    ∃ attr, (writeLayout (initialCandidates sampleCache) fun _ => sampleModel).getAttribute
        .vertical 1 = some attr ∧
      ∀ views ∈ screens sampleApp [sampleDevice] .vertical, attr.HoldsAt views sampleModel := by
  obtain ⟨attr, hattr, _, _, hholds⟩ := (written_attributes_hold (K := ℚ) sampleApp [sampleDevice]
    (by decide)).1 id false _ sampleModel sampleModel_models .vertical 1 (by decide) (by decide)
  refine ⟨attr, hattr, hholds ⟨fun _ => ?_, fun _ => ?_⟩ ?_⟩
  · decide
  · decide
  · intro h
    cases h

/-! ## What is lost -/

/-- A view in a root, in the horizontal orientation. -/
def rowApp (width start «end» : Int) : App ℚ := .ofViews
  [⟨0, 0, width, 100, 0, 0, fun _ => none, fun _ => none⟩,
    ⟨start, 10, «end», 20, 1, 0, fun _ => none, fun _ => none⟩]

/-- The view placed by one constraint, with the given margins and bias. -/
def rowModel (width start «end» marginStart marginEnd : Int) (bias : ℚ) (name : ConstraintData) :
    Assignment ℚ where
  positionStart u _ := if u = 1 then start else 0
  positionEnd u _ := if u = 1 then «end» else width
  marginStart u := if u = 1 then marginStart else 0
  marginEnd u := if u = 1 then marginEnd else 0
  anchor u := if u = 1 then 1 else 0
  bias _ := bias
  cost _ := 0
  satisfied _ _ := true
  select n := decide (n = name)

/-- `v` is a model of `Synthesize`, and what is written for the view does not hold. -/
def LostIn (app : App ℚ) (v : Assignment ℚ) : Prop :=
  let views := convertViews app .horizontal 0
  Models (synthesizeAssertions app .horizontal) v ∧
    ∃ attr ∈ (assignModels views (synthesizeNames ℚ app .horizontal) .horizontal v
      app).getAttribute .horizontal 1, ¬ attr.HoldsAt views v

instance (app : App ℚ) (v : Assignment ℚ) : Decidable (LostIn app v) :=
  inferInstanceAs (Decidable (_ ∧ _))

/-- A margin that reaches the cut-off, a shift of two margins under a bias of a quarter, and a
bias of a sixth. -/
theorem written_attributes_lost :
    LostIn (rowApp 20000 10000 10100)
      (rowModel 20000 10000 10100 10000 0 (1 / 2) ⟨.l2l, .fixed, .horizontal, 1, 0, -1⟩) ∧
    LostIn (rowApp 100 20 40)
      (rowModel 100 20 40 4 12 (1 / 4) ⟨.l2lxr2r, .fixed, .horizontal, 1, 0, 0⟩) ∧
    LostIn (rowApp 100 10 53)
      (rowModel 100 10 53 0 0 (1 / 6) ⟨.l2lxr2r, .fixed, .horizontal, 1, 0, 0⟩) := by
  decide +kernel

end InferUI
