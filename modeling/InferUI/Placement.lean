import InferUI.Blocking
import InferUI.MultiDeviceSynthesis
import InferUI.Written

/-!
# The screens of a layout

Where the attributes of a layout hold, the frame of the screen determines the places of all views.
The screens that multi-device synthesis gives for the devices are of this kind: the layout it writes
holds there, and nowhere else in the same frames.
-/

namespace InferUI
open Store CandidateConstraints
variable {Prob K : Type}

/-! ## The screens that are written -/

def App.places (app : App Prob) (o : Orientation) (p : Nat) : Int × Int :=
  (app.edgeAt o p .start, app.edgeAt o p .end)

section
variable {device : App Prob} {o : Orientation} {v : Assignment K} {n d : Nat}

/-- Along the orientation of the query the views of a device are where the model has them. -/
theorem hasPositions_assignAllPositions (hn : device.views.length = n)
    (hroot : Models (assertRoot (convertViews device o d)) v) :
    HasPositions n o ((device.assignAllPositions o (convertViews device o d) v).places o) v d := by
  have hplace (p : Nat) (hlt : p < n) :
      (device.assignAllPositions o (convertViews device o d) v).places o p =
        positionsOn v o d p := by
    rw [App.places, edgeAt_assignAllPositions hroot (hn ▸ hlt),
      edgeAt_assignAllPositions hroot (hn ▸ hlt), findView_eq (List.getElem?_eq_getElem (hn ▸ hlt))]
    rfl
  exact ⟨fun p hlt => congrArg Prod.fst (hplace p hlt).symm,
    fun p hlt => congrArg Prod.snd (hplace p hlt).symm⟩

theorem places_assignAllPositions_of_ne {o' : Orientation} (hne : o' ≠ o) (z3Views : List Z3View)
    (v : Assignment K) :
    (device.assignAllPositions o z3Views v).places o' = device.places o' := by
  funext p
  rw [App.places, App.places, edgeAt_assignAllPositions_of_ne z3Views v hne,
    edgeAt_assignAllPositions_of_ne z3Views v hne]

end

section
variable [Field K] [LinearOrder K] [FloorRing K] {app layout : App Prob} {o : Orientation}
variable {v : Assignment K} {pos pos' : Nat → Int × Int}

/-! ## Attributes at given places -/

/-- At `pos`, with the size of the app, the attribute of view `p` holds. -/
def Attribute.PlacesAt (app : App Prob) (o : Orientation) (v : Assignment K)
    (pos : Nat → Int × Int) (p : Nat) (attr : Attribute Prob) : Prop :=
  attributeValue (convertViews app o 0) attr (v.withPositions o pos) = true ∧
    if attr.viewSize = .fixed then (pos p).1 + (app.views[p]?).elim 0 (·.size o) = (pos p).2
    else 0 ≤ (pos p).2 - (pos p).1

/-- An attribute at two places of its view and of its targets. -/
structure Attribute.PlacesBoth (app : App Prob) (o : Orientation) (pos pos' : Nat → Int × Int)
    (p : Nat) (v : Assignment K) (attr : Attribute Prob) : Prop where
  proper : attr.Proper app.views.length o p
  left : attr.PlacesAt app o v pos p
  right : attr.PlacesAt app o v pos' p

section
variable [IsStrictOrderedRing K] {attr : Attribute Prob} {p : Nat}

/-- An attribute leaves one place for its view, given those of its targets. -/
theorem Attribute.PlacesBoth.eq (h : attr.PlacesBoth app o pos pos' p v)
    (hlt : p < app.views.length) (htargets : ∀ t ∈ attr.targets, pos t = pos' t) :
    pos p = pos' p := by
  have hproper := h.proper
  have hedge (q : Nat) (hq : q < app.views.length) (hsame : pos q = pos' q) (s : Side) :
      (findView (convertViews app o 0) q).edge s (v.withPositions o pos) =
        (findView (convertViews app o 0) q).edge s (v.withPositions o pos') := by
    rw [edge_withPositions hq, edge_withPositions hq, hsame]
  have hstart (pos : Nat → Int × Int) : (findView (convertViews app o 0) p).positionStart
      (v.withPositions o pos) = (pos p).1 := edge_withPositions hlt .start
  have hend (pos : Nat → Int × Int) : (findView (convertViews app o 0) p).positionEnd
      (v.withPositions o pos) = (pos p).2 := edge_withPositions hlt .end
  have hfixed {pos : Nat → Int × Int} (hplaces : attr.PlacesAt app o v pos p)
      (hf : attr.viewSize = .fixed) :
      (findView (convertViews app o 0) p).positionStart (v.withPositions o pos) +
          (app.views[p]?).elim 0 (·.size o) =
        (findView (convertViews app o 0) p).positionEnd (v.withPositions o pos) := by
    have hsize := hplaces.2
    rw [hstart, hend]
    rwa [if_pos hf] at hsize
  have hvalue := h.left.1
  have hvalue' := h.right.1
  rw [attributeValue, hproper.own] at hvalue hvalue'
  have hplaced := formula_determines
    (fun hrel => by
      obtain ⟨hnone, hkind⟩ := hproper.relational hrel
      exact ⟨by rw [hnone]; rfl, hkind⟩)
    (fun hcenter => by
      obtain ⟨r, hr, hsome⟩ := hproper.center hcenter
      exact ⟨_, by rw [hsome]; rfl, hedge r hr
        (htargets r (Attribute.secondary_mem_targets hcenter hsome))⟩)
    (hedge _ hproper.primary (htargets _ attr.primary_mem_targets))
    rfl rfl rfl hvalue hvalue' (hfixed h.left) (hfixed h.right)
  rw [hstart, hstart, hend, hend] at hplaced
  exact Prod.ext hplaced.1 hplaced.2

/-- Attributes without a cycle leave one place for every view, in a given frame. -/
theorem places_unique {rank : Nat → Nat}
    (h : ∀ p, p ≠ 0 → p < app.views.length → ∃ (v : Assignment K) (attr : Attribute Prob),
      attr.PlacesBoth app o pos pos' p v ∧ ∀ t ∈ attr.targets, rank t < rank p)
    (hroot : pos 0 = pos' 0) (hlt : p < app.views.length) : pos p = pos' p := by
  induction hr : rank p using Nat.strong_induction_on generalizing p with
  | _ r ih =>
    by_cases hp : p = 0
    · rw [hp, hroot]
    · obtain ⟨v, attr, hattr, hrank⟩ := h p hp hlt
      apply hattr.eq hlt
      intro t ht
      exact ih _ (hr ▸ hrank t ht) (hattr.proper.targets_lt ht) rfl

end

/-- Nothing but the numbers of one attribute. -/
def Attribute.numbers (K : Type) [Field K] (attr : Attribute Prob) (u : Nat) : Assignment K :=
  Assignment.withAttribute ⟨fun _ _ => 0, fun _ _ => 0, fun _ => 0, fun _ => 0, fun _ => 0,
    fun _ => 0, fun _ => 0, fun _ _ => false, fun _ => false⟩ u attr

/-- An attribute that holds on a screen with its own numbers holds at the places there. -/
theorem placesAt_of_holdsAt {device : App Prob} {d p : Nat} {attr : Attribute Prob}
    (hn : device.views.length = app.views.length) (hproper : attr.Proper app.views.length o p)
    (hlt : p < app.views.length) (hpos : HasPositions app.views.length o pos v d)
    (hvalue : attr.HoldsAt (convertViews device o d) v)
    (hsize : if attr.viewSize = .fixed then
        (pos p).1 + (app.views[p]?).elim 0 (·.size o) = (pos p).2
      else 0 ≤ (pos p).2 - (pos p).1) :
    attr.PlacesAt app o (attr.numbers K (uniqueId p o)) pos p := by
  have hid := findView_uniqueId (o := o) (d := d) (hn ▸ hlt : p < device.views.length)
  rw [Attribute.HoldsAt, hproper.own, hid] at hvalue
  have hthere : HasPositions app.views.length o pos (v.withAttribute (uniqueId p o) attr) d :=
    ⟨hpos.start, hpos.end⟩
  have hmargins : SameMargins (uniqueId p o) (v.withAttribute (uniqueId p o) attr)
      ((attr.numbers K (uniqueId p o)).withPositions o pos) := by
    constructor <;>
      simp [Assignment.withAttribute, Attribute.numbers, Assignment.withPositions]
  exact ⟨attributeValue_at hn rfl hproper hlt hthere
    (hasPositions_withPositions app.views.length _ o pos 0) hmargins hvalue, hsize⟩

/-! ## A layout at given places -/

/-- Every view but the root is where its attribute has it. -/
def App.LaidOut (K : Type) [Field K] [LinearOrder K] [FloorRing K] (layout : App Prob)
    (o : Orientation) (pos : Nat → Int × Int) : Prop :=
  ∀ p, p ≠ 0 → p < layout.views.length → ∃ attr, layout.getAttribute o p = some attr ∧
    attr.PlacesAt layout o (attr.numbers K (uniqueId p o)) pos p

/-- Every view but the root has an attribute, and there is no cycle. -/
def App.Formed (layout : App Prob) (o : Orientation) (rank : Nat → Nat) : Prop :=
  ∀ p, p ≠ 0 → p < layout.views.length → ∃ attr, layout.getAttribute o p = some attr ∧
    attr.Proper layout.views.length o p ∧ ∀ t ∈ attr.targets, rank t < rank p

theorem App.Formed.unique [IsStrictOrderedRing K] {rank : Nat → Nat}
    (hformed : layout.Formed o rank) (h : layout.LaidOut K o pos) (h' : layout.LaidOut K o pos')
    (hroot : pos 0 = pos' 0) {p : Nat} (hlt : p < layout.views.length) : pos p = pos' p := by
  have hboth : ∀ p, p ≠ 0 → p < layout.views.length → ∃ (v : Assignment K) (attr : Attribute Prob),
      attr.PlacesBoth layout o pos pos' p v ∧ ∀ t ∈ attr.targets, rank t < rank p := by
    intro p hp hlt
    obtain ⟨attr, hattr, hproper, hrank⟩ := hformed p hp hlt
    obtain ⟨left, hleft, hplaced⟩ := h p hp hlt
    obtain ⟨right, hright, hplaced'⟩ := h' p hp hlt
    obtain rfl : attr = left := Option.some.inj (hattr.symm.trans hleft)
    obtain rfl : attr = right := Option.some.inj (hattr.symm.trans hright)
    exact ⟨_, attr, ⟨hproper, hplaced, hplaced'⟩, hrank⟩
  exact places_unique hboth hroot hlt

/-! ## What a model writes -/

def View.withoutAttributes (view : View Prob) : View Prob :=
  { view with attributes := fun _ => none }

/-- The layout has the views of the app, with attributes of its own. -/
def App.SameViews (layout app : App Prob) : Prop :=
  layout.views.map View.withoutAttributes = app.views.map View.withoutAttributes

theorem App.SameViews.map {β : Type} {f : View Prob → β} (h : layout.SameViews app)
    (hf : ∀ view : View Prob, f view.withoutAttributes = f view) :
    layout.views.map f = app.views.map f := by
  have hmap := congrArg (List.map f) h
  simpa only [List.map_map, Function.comp_def, hf] using hmap

theorem App.SameViews.length (h : layout.SameViews app) :
    layout.views.length = app.views.length := by
  simpa using congrArg List.length h

theorem App.SameViews.convertViews_eq (h : layout.SameViews app) (o : Orientation) (d : Nat) :
    convertViews layout o d = convertViews app o d :=
  h.map fun view => by cases o <;> rfl

theorem App.SameViews.elim {β : Type} (h : layout.SameViews app) {f : View Prob → β} (b : β)
    (hf : ∀ view : View Prob, f view.withoutAttributes = f view) (p : Nat) :
    (layout.views[p]?).elim b f = (app.views[p]?).elim b f := by
  have hget := congrArg (fun fs : List β => (fs[p]?).elim b id) (h.map hf)
  simpa only [List.getElem?_map, Option.elim_map, Function.id_comp] using hget

theorem App.SameViews.places_eq (h : layout.SameViews app) (o : Orientation) :
    layout.places o = app.places o := by
  funext p
  have hedge (s : Side) : layout.edgeAt o p s = app.edgeAt o p s :=
    h.elim 0 (fun view => by cases o <;> cases s <;> rfl) p
  rw [App.places, App.places, hedge, hedge]

theorem App.SameViews.placesAt (h : layout.SameViews app) {attr : Attribute Prob} {p : Nat}
    (hplaced : attr.PlacesAt app o v pos p) : attr.PlacesAt layout o v pos p := by
  rw [Attribute.PlacesAt, h.convertViews_eq, h.elim 0 (fun view => by cases o <;> rfl)]
  exact hplaced

theorem App.SameViews.assignModels [Zero Prob] (h : layout.SameViews app) (views : List Z3View)
    (constraints : Nat → List ConstraintData) (o : Orientation) (v : Assignment K) :
    (assignModels views constraints o v layout).SameViews app :=
  (map_assignModels (fun _ _ _ => rfl) views constraints o v layout).trans h

variable [Zero Prob] {deviceApps : List (App Prob)} {p : Nat}
variable {c : CandidateConstraints app o} {attr : Attribute Prob}

/-- The layout has what a model writes along one orientation. -/
structure WrittenBy (app layout : App Prob) (o : Orientation) (c : CandidateConstraints app o)
    (v : Assignment K) : Prop where
  views : layout.SameViews app
  written : ∀ p, p ≠ 0 → p < app.views.length → ∀ attr : Attribute Prob,
    assigned (convertViews app o 0) (selectionNames c) v p = some attr →
    layout.getAttribute o p = some attr
  /-- No margin that was written had reached the cut-off. -/
  small : ∀ p, p ≠ 0 → p < app.views.length → ∀ attr : Attribute Prob,
    layout.getAttribute o p = some attr →
    SmallMargins attr.type (findView (convertViews app o 0) p) v

section
variable {printed : Prob → K} {userInput robust opt : Bool}

/-- In a model of the query, with the selected candidate of a view. -/
theorem WrittenBy.exists_chosen (h : WrittenBy app layout o c v)
    (hmodel : Models (multiDeviceAssertions printed deviceApps userInput robust opt c) v)
    (hp : p ≠ 0) (hlt : p < app.views.length) :
    ∃ attr, Chosen c v p attr ∧
      layout.getAttribute o p = some (attr.written (findView (convertViews app o 0) p) v) ∧
      SmallMargins attr.type (findView (convertViews app o 0) p) v := by
  obtain ⟨attr, hchosen⟩ := InferUI.exists_chosen (models_multiDevice.mp hmodel).2.1 hp hlt
  have hattr := h.written p hp hlt _ (hchosen.assigned_eq hp hlt)
  have hsmall := h.small p hp hlt _ hattr
  exact ⟨attr, hchosen, hattr, hsmall⟩

theorem WrittenBy.formed (h : WrittenBy app layout o c v)
    (hmodel : Models (multiDeviceAssertions printed deviceApps userInput robust opt c) v) :
    layout.Formed o fun p => (v.anchor (uniqueId p o)).toNat := by
  intro p hp hlt
  obtain ⟨attr, hchosen, hattr, _⟩ := h.exists_chosen hmodel hp (h.views.length ▸ hlt)
  have hproper := h.views.length ▸ hchosen.proper
  exact ⟨_, hattr, ⟨hproper.own, hproper.orientation, hproper.primary, hproper.relational,
    hproper.center⟩, hchosen.anchor_lt⟩

variable [IsStrictOrderedRing K]

/-- What is written for a selected candidate holds where the candidate does. -/
theorem Chosen.placesAt {device : App Prob} {d : Nat} (h : Chosen c v p attr)
    (hlt : p < app.views.length) (hn : device.views.length = app.views.length)
    (hposition : Models (addPositionConstraints (convertViews app o 0) true) v)
    (hsmall : SmallMargins attr.type (findView (convertViews app o 0) p) v)
    (hpos : HasPositions app.views.length o pos v d)
    (hvalue : attributeValue (convertViews device o d) attr v = true)
    (hsize : if attr.viewSize = .fixed then
        (pos p).1 + (app.views[p]?).elim 0 (·.size o) = (pos p).2
      else 0 ≤ (pos p).2 - (pos p).1) :
    let new := attr.written (findView (convertViews app o 0) p) v
    new.PlacesAt app o (new.numbers K (uniqueId p o)) pos p := by
  intro new
  have hproper := h.proper
  obtain ⟨⟨hstart, hend⟩, _, hbias⟩ :=
    models_addPositionConstraints.mp hposition p _ (List.getElem?_eq_getElem hlt)
  have hplain : PlainBias attr.type attr.viewSize (findView (convertViews app o 0) p) v := by
    apply plainBias_half
    rw [Z3View.bias, findView_uniqueId hlt]
    exact hbias
  exact placesAt_of_holdsAt hn ⟨hproper.own, hproper.orientation, hproper.primary,
    hproper.relational, hproper.center⟩ hlt hpos
    (written_holdsAt hn hproper hlt hsmall hplain hstart hend hvalue) hsize

/-- The layout holds where the views of the reference are. -/
theorem WrittenBy.laidOut_reference (h : WrittenBy app layout o c v)
    (hsize : ∀ view ∈ app.views, 0 ≤ view.size o)
    (hmodel : Models (multiDeviceAssertions printed deviceApps userInput robust opt c) v) :
    layout.LaidOut K o (layout.places o) := by
  intro p hp hlt
  rw [h.views.length] at hlt
  obtain ⟨attr, hchosen, hattr, hsmall⟩ := h.exists_chosen hmodel hp hlt
  obtain ⟨hposition, _, _⟩ := models_multiDevice.mp hmodel
  have hplaces (q : Nat) (hq : q < app.views.length) : positionsOn v o 0 q = app.places o q := by
    have hview := List.getElem?_eq_getElem hq
    rw [positionsOn_reference hposition hview, App.places, edgeAt_eq hview, edgeAt_eq hview]
    rfl
  have hpos : HasPositions app.views.length o (app.places o) v 0 :=
    ⟨fun q hq => congrArg Prod.fst (hplaces q hq), fun q hq => congrArg Prod.snd (hplaces q hq)⟩
  have hview := List.getElem?_eq_getElem hlt
  have hnonneg := hsize _ (List.getElem_mem hlt)
  rw [h.views.places_eq]
  refine ⟨_, hattr, h.views.placesAt (hchosen.placesAt hlt rfl hposition hsmall hpos
    hchosen.value ?_)⟩
  rw [App.places, edgeAt_eq hview, edgeAt_eq hview, hview, Option.elim_some, View.size_eq]
  rw [View.size_eq] at hnonneg
  change if _ then app.views[p].startAt o + _ = app.views[p].endAt o
    else 0 ≤ app.views[p].endAt o - app.views[p].startAt o
  split <;> omega

/-- The layout holds where the model has the views of a device. -/
theorem WrittenBy.laidOut_device (h : WrittenBy app layout o c v)
    (hmodel : Models (multiDeviceAssertions printed deviceApps userInput robust opt c) v)
    {device : App Prob} {d : Nat} (hd : deviceApps[d]? = some device)
    (hn : device.views.length = app.views.length)
    (hpos : HasPositions app.views.length o pos v (d + 1)) : layout.LaidOut K o pos := by
  intro p hp hlt
  rw [h.views.length] at hlt
  obtain ⟨attr, hchosen, hattr, hsmall⟩ := h.exists_chosen hmodel hp hlt
  obtain ⟨hposition, _, hdevices⟩ := models_multiDevice.mp hmodel
  have hdevice := hdevices d device hd
  simp only [addMultiDevice, models_append] at hdevice
  have hgen := models_addGenAttributes.mp hdevice.2 p hp (hn ▸ hlt) attr hchosen.mem
  obtain ⟨hvalue, hsize⟩ := genAttribute_sized hn hchosen.proper hlt hgen hchosen.selected
  have hplace : positionsOn v o (d + 1) p = pos p :=
    Prod.ext (hpos.start p hlt) (hpos.end p hlt)
  rw [hplace] at hsize
  exact ⟨_, hattr, h.views.placesAt (hchosen.placesAt hlt hn hposition hsmall hpos hvalue hsize)⟩

/-! ## The whole synthesis -/

/-- The layout says along `o` where the views of the app and of the devices are. -/
structure Layouts.Predicted (K : Type) [Field K] [LinearOrder K] [FloorRing K]
    (cur : Layouts Prob) (o : Orientation) : Prop where
  reference : cur.app.LaidOut K o (cur.app.places o)
  devices : ∀ device ∈ cur.deviceApps, cur.app.LaidOut K o (device.places o)
  unique : ∀ pos pos', cur.app.LaidOut K o pos → cur.app.LaidOut K o pos' → pos 0 = pos' 0 →
    ∀ p < cur.app.views.length, pos p = pos' p

theorem WrittenBy.predicted {cur : Layouts Prob} (h : WrittenBy app cur.app o c v)
    (hsize : ∀ view ∈ app.views, 0 ≤ view.size o)
    (hmodel : Models (multiDeviceAssertions printed deviceApps userInput robust opt c) v)
    (hscreens : ∀ device ∈ cur.deviceApps, ∃ (d : Nat) (before : App Prob),
      deviceApps[d]? = some before ∧ before.views.length = app.views.length ∧
      HasPositions app.views.length o (device.places o) v (d + 1)) : cur.Predicted K o where
  reference := h.laidOut_reference hsize hmodel
  devices device hdevice := by
    obtain ⟨d, before, hd, hn, hpos⟩ := hscreens device hdevice
    exact h.laidOut_device hmodel hd hn hpos
  unique pos pos' hpos hpos' hroot p hlt := (h.formed hmodel).unique hpos hpos' hroot hlt

end

omit [Zero Prob] in
theorem models_root {printed : Prob → K} {userInput robust opt : Bool}
    {c : CandidateConstraints app o} {v : Assignment K} {deviceApps : List (App Prob)}
    (h : Models (multiDeviceAssertions printed deviceApps userInput robust opt c) v) {d : Nat}
    {device : App Prob} (hd : deviceApps[d]? = some device) :
    Models (assertRoot (convertViews device o (d + 1))) v := by
  have hdevice := (models_multiDevice.mp h).2.2 d device hd
  simp only [addMultiDevice, models_append] at hdevice
  exact hdevice.1.1.1

/-- How the pass along `o` of a synthesis that succeeded left the layout and the screens: after so
many rounds the second phase has given the model `v`. -/
structure PassedBy (printed : Prob → K) (robust opt : Bool) (scorer : ConstraintCache app o)
    (deviceApps : List (App Prob)) (cores : List (List Nat)) (v : Assignment K)
    (result : Layouts Prob) : Prop where
  model : Models (multiDeviceAssertions printed deviceApps false robust opt
    (MultiDevice.run printed deviceApps false robust scorer cores).encoder.candidates.resetAdding) v
  written : WrittenBy app result.app o
    (MultiDevice.run printed deviceApps false robust scorer cores).encoder.candidates.resetAdding v
  screens : ∀ device ∈ result.deviceApps, ∃ (d : Nat) (before : App Prob),
    deviceApps[d]? = some before ∧ before.views.length = app.views.length ∧
    HasPositions app.views.length o (device.places o) v (d + 1)

section
variable {printed : Prob → K} {opt : Bool} {env : Orientation → Environment K}
variable {scorers : (o : Orientation) → ConstraintCache app o} {resizable : Orientation → Bool}
variable {refDevice : Device} {devices : List Device}

theorem exists_passedBy
    (hvertical : (env .vertical).Correct printed (devices.map (resizeApp resizable app refDevice))
      false (!devices.isEmpty) opt (scorers .vertical))
    (hhorizontal : (env .horizontal).Correct printed (synthesizeMultiDeviceProb printed
        (env .vertical) false (!devices.isEmpty) (scorers .vertical)
        ⟨app, devices.map (resizeApp resizable app refDevice)⟩).2.deviceApps
      false (!devices.isEmpty) opt (scorers .horizontal)) :
    let result := synthesizeLayoutMultiDeviceProb printed env scorers resizable refDevice devices
    (∀ o v, (env o).finalAnswer = .sat v → ∀ p attr, result.2.app.getAttribute o p = some attr →
      SmallMargins attr.type (findView (convertViews app o 0) p) v) →
    result.1 = .success → ∀ o, ∃ deviceApps cores v,
      PassedBy printed (!devices.isEmpty) opt (scorers o) deviceApps cores v result.2 := by
  intro result hsmall hsuccess
  let first := synthesizeMultiDeviceProb printed (env .vertical) false (!devices.isEmpty)
    (scorers .vertical) ⟨app, devices.map (resizeApp resizable app refDevice)⟩
  let second := synthesizeMultiDeviceProb printed (env .horizontal) false (!devices.isEmpty)
    (scorers .horizontal) first.2
  have hfirst : first.1 = .success := by
    by_contra hfailed
    have hresult : result = first := if_neg hfailed
    exact hfailed (hresult ▸ hsuccess)
  have hresult : result = second := if_pos hfirst
  rw [hresult] at hsmall hsuccess ⊢
  obtain ⟨cores, v, hanswer, hmodel, hassign⟩ := exists_model_of_success hvertical hfirst
  obtain ⟨cores', w, hanswer', hmodel', hassign'⟩ := exists_model_of_success hhorizontal hsuccess
  have hviews : first.2.app.SameViews app := by
    rw [hassign]
    exact App.SameViews.assignModels rfl _ _ _ v
  have hviews' : second.2.app.SameViews app := by
    rw [hassign']
    exact hviews.assignModels _ _ _ w
  have hpasses : ∀ device ∈ second.2.deviceApps, ∃ (d : Nat) (blank placed : App Prob),
      (devices.map (resizeApp resizable app refDevice))[d]? = some blank ∧
      first.2.deviceApps[d]? = some placed ∧
      placed = blank.assignAllPositions .vertical (convertViews blank .vertical (d + 1)) v ∧
      device =
        placed.assignAllPositions .horizontal (convertViews placed .horizontal (d + 1)) w := by
    intro device hdevice
    obtain ⟨d, hd⟩ := List.mem_iff_getElem?.mp hdevice
    rw [hassign', Layouts.assign, if_neg Bool.false_ne_true, List.getElem?_mapIdx] at hd
    obtain ⟨placed, hplaced, rfl⟩ := Option.map_eq_some_iff.mp hd
    have hbefore := hplaced
    rw [hassign, Layouts.assign, if_neg Bool.false_ne_true, List.getElem?_mapIdx] at hbefore
    obtain ⟨blank, hblank, rfl⟩ := Option.map_eq_some_iff.mp hbefore
    exact ⟨d, blank, _, hblank, hplaced, rfl, rfl⟩
  intro o
  cases o with
  | vertical =>
    refine ⟨_, cores, v, hmodel, ⟨hviews', ?_, ?_⟩, ?_⟩
    · -- the horizontal pass keeps the vertical attributes
      intro p hp hlt attr hattr
      rw [hassign', Layouts.assign, getAttribute_assignModels hviews.length, if_neg (by simp),
        hassign]
      exact getAttribute_assigned hp hlt hattr
    · exact fun p _ _ attr hattr => hsmall .vertical v hanswer p attr hattr
    · intro device hdevice
      obtain ⟨d, blank, placed, hblank, hplaced, rfl, rfl⟩ := hpasses device hdevice
      obtain ⟨target, _, rfl⟩ := List.mem_map.mp (List.mem_of_getElem? hblank)
      refine ⟨d, _, hblank, length_resizeApp .., ?_⟩
      rw [places_assignAllPositions_of_ne (by decide)]
      exact hasPositions_assignAllPositions (length_resizeApp ..) (models_root hmodel hblank)
  | horizontal =>
    refine ⟨_, cores', w, hmodel', ⟨hviews', ?_, ?_⟩, ?_⟩
    · intro p hp hlt attr hattr
      rw [hassign', Layouts.assign, getAttribute_assignModels hviews.length,
        if_pos ⟨rfl, hp, hlt⟩, hattr, Option.some_or]
    · exact fun p _ _ attr hattr => hsmall .horizontal w hanswer' p attr hattr
    · intro device hdevice
      obtain ⟨d, blank, placed, hblank, hplaced, hplaces, rfl⟩ := hpasses device hdevice
      obtain ⟨target, _, rfl⟩ := List.mem_map.mp (List.mem_of_getElem? hblank)
      have hn : placed.views.length = app.views.length := by
        rw [hplaces, length_assignAllPositions, length_resizeApp]
      exact ⟨d, placed, hplaced, hn,
        hasPositions_assignAllPositions hn (models_root hmodel' hplaced)⟩

/-- What both passes write, when no margin reaches the cut-off, is a layout that holds where the
views of the reference are and where the models have those of the devices, and nowhere else in the
same frames. -/
theorem synthesizeLayoutMultiDeviceProb_predicted [IsStrictOrderedRing K]
    (hsize : ∀ view ∈ app.views, ∀ o, 0 ≤ view.size o)
    (hvertical : (env .vertical).Correct printed (devices.map (resizeApp resizable app refDevice))
      false (!devices.isEmpty) opt (scorers .vertical))
    (hhorizontal : (env .horizontal).Correct printed (synthesizeMultiDeviceProb printed
        (env .vertical) false (!devices.isEmpty) (scorers .vertical)
        ⟨app, devices.map (resizeApp resizable app refDevice)⟩).2.deviceApps
      false (!devices.isEmpty) opt (scorers .horizontal)) :
    let result := synthesizeLayoutMultiDeviceProb printed env scorers resizable refDevice devices
    (∀ o v, (env o).finalAnswer = .sat v → ∀ p attr, result.2.app.getAttribute o p = some attr →
      SmallMargins attr.type (findView (convertViews app o 0) p) v) →
    result.1 = .success → ∀ o, result.2.Predicted K o := by
  intro result hsmall hsuccess o
  obtain ⟨deviceApps, cores, v, hpass⟩ := exists_passedBy hvertical hhorizontal hsmall hsuccess o
  exact hpass.written.predicted (fun view hview => hsize view hview o) hpass.model hpass.screens

end
end

theorem synthesizeLayoutMultiDeviceProb_predicted_inset :
    let result := synthesizeLayoutMultiDeviceProb id insetEnvironment insetCache (fun _ => true)
      ⟨100, 100⟩ [largeScreen]
    result.1 = .success ∧ ∀ o, result.2.Predicted ℚ o := by
  intro result
  have hsuccess : result.1 = .success := rfl
  have hsize : ∀ view ∈ insetApp.views, ∀ o, 0 ≤ view.size o := by
    intro view hview o
    revert view
    cases o <;> decide
  refine ⟨hsuccess, synthesizeLayoutMultiDeviceProb_predicted hsize insetEnvironment_vertical
    insetEnvironment_horizontal ?_ hsuccess⟩
  intro o v hanswer p attr _
  obtain rfl : insetModel o = v := CheckResult.sat.inj hanswer
  exact ⟨fun _ => inset_small o, fun _ => inset_small o⟩

end InferUI
