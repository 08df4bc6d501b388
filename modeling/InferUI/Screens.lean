import InferUI.Search
import InferUI.Uniqueness

/-!
# The same constraints on another screen

What a model selects is a layout: it can be carried over to another screen as it is when that has
the frame of a known one, and computed there from the frame outwards when no view is stretched
between its anchors or held inside the frame.
-/

namespace InferUI
open Store
variable {Prob K : Type}

/-- The same view of the app, with the same edges under two assignments. -/
structure Z3View.Alike (a : Z3View) (v : Assignment K) (b : Z3View) (w : Assignment K) : Prop where
  pos : a.pos = b.pos
  edge : ∀ s, a.edge s v = b.edge s w

/-- Two assignments with the same margins and the same bias for a view. -/
structure SameMargins (u : Nat) (v w : Assignment K) : Prop where
  start : v.marginStart u = w.marginStart u
  «end» : v.marginEnd u = w.marginEnd u
  bias : v.bias u = w.bias u

def side (edges : Int × Int) : Side → Int
  | .start => edges.1
  | .end => edges.2

/-- The same positions on every screen; view `p` is the one with unique id `uniqueId p o`. -/
def Assignment.withPositions (v : Assignment K) (o : Orientation) (pos : Nat → Int × Int) :
    Assignment K :=
  { v with
    positionStart := fun u _ => (pos (u - 1000 * o.toIndex)).1
    positionEnd := fun u _ => (pos (u - 1000 * o.toIndex)).2 }

section
variable {o : Orientation} {v w : Assignment K} {pos : Nat → Int × Int}

/-- A screen on which a model has the positions `pos`. -/
structure HasPositions (n : Nat) (o : Orientation) (pos : Nat → Int × Int) (v : Assignment K)
    (d : Nat) : Prop where
  start : ∀ p < n, v.positionStart (uniqueId p o) d = (pos p).1
  «end» : ∀ p < n, v.positionEnd (uniqueId p o) d = (pos p).2

theorem HasPositions.alike {device device' : App Prob} {d d' : Nat} {n : Nat}
    (hn : device.views.length = n) (hn' : device'.views.length = n)
    (hv : HasPositions n o pos v d) (hw : HasPositions n o pos w d') {p : Nat} (hlt : p < n) :
    (findView (convertViews device o d) p).Alike v (findView (convertViews device' o d') p) w := by
  have hp := List.getElem?_eq_getElem (hn ▸ hlt : p < device.views.length)
  have hp' := List.getElem?_eq_getElem (hn' ▸ hlt : p < device'.views.length)
  rw [findView_eq hp, findView_eq hp']
  refine ⟨rfl, fun s => ?_⟩
  cases s with
  | start => exact (hv.start p hlt).trans (hw.start p hlt).symm
  | «end» => exact (hv.end p hlt).trans (hw.end p hlt).symm

theorem hasPositions_withPositions (n : Nat) (v : Assignment K) (o : Orientation)
    (pos : Nat → Int × Int) (d : Nat) : HasPositions n o pos (v.withPositions o pos) d where
  start p _ := by simp only [Assignment.withPositions, uniqueId_sub]
  «end» p _ := by simp only [Assignment.withPositions, uniqueId_sub]

def positionsOn (v : Assignment K) (o : Orientation) (d : Nat) (p : Nat) : Int × Int :=
  (v.positionStart (uniqueId p o) d, v.positionEnd (uniqueId p o) d)

theorem positionsOn_root {device : App Prob} {root : View Prob} {d : Nat}
    (hroot : device.views[0]? = some root) (h : Models (assertRoot (convertViews device o d)) v) :
    positionsOn v o d 0 = (root.startAt o, root.endAt o) := by
  obtain ⟨hstart, hend⟩ := (models_assertPosition hroot).mp h
  exact Prod.ext hstart hend

/-- What a user fixed is where the device says. -/
theorem positionsOn_known {device : App Prob} {view : View Prob} {n d p : Nat}
    (h : Models (assertKnownPositions n (convertViews device o d)) v) (hp : p ≠ 0) (hlt : p < n)
    (hview : device.views[p]? = some view) (hstart : view.startAt o ≠ -1)
    (hend : view.endAt o ≠ -1) : positionsOn v o d p = (view.startAt o, view.endAt o) := by
  have hconverted : (convertViews device o d)[p]? =
      some ⟨p, o, d, view.startAt o, view.endAt o⟩ := by rw [convertViews_getElem?, hview]; rfl
  have hmem : findView (convertViews device o d) p ∈ ((convertViews device o d).take n).drop 1 := by
    refine List.mem_iff_getElem?.mpr ⟨p - 1, ?_⟩
    rw [List.getElem?_drop, Nat.add_sub_cancel' (Nat.pos_of_ne_zero hp), List.getElem?_take,
      if_pos hlt, hconverted, findView_eq hview]
  have hfixed : (findView (convertViews device o d) p).hasFixedPosition = true := by
    rw [findView_eq hview, Z3View.hasFixedPosition, decide_eq_true hstart, decide_eq_true hend,
      Bool.and_self]
  have hposition := models_flatMap.mp h _ hmem
  rw [if_pos hfixed, models_assertPosition hview] at hposition
  exact Prod.ext hposition.1 hposition.2

theorem edge_withPositions {app : App Prob} {p : Nat} (hlt : p < app.views.length) (s : Side) :
    (findView (convertViews app o 0) p).edge s (v.withPositions o pos) = side (pos p) s := by
  rw [findView_eq (List.getElem?_eq_getElem hlt)]
  cases s with
  | start => simp only [Z3View.edge, Z3View.positionStart, Z3View.uniqueId, side,
      Assignment.withPositions, uniqueId_sub]
  | «end» => simp only [Z3View.edge, Z3View.positionEnd, Z3View.uniqueId, side,
      Assignment.withPositions, uniqueId_sub]

end

section
variable [Field K] [LinearOrder K] [FloorRing K]

/-- A formula only reads the edges of its views, and the margins and the bias of the source. -/
theorem formula_alike {type : ConstraintType} {size : ViewSize} {src l src' l' : Z3View}
    {r r' : Option Z3View} {v w : Assignment K}
    (hrelational : type.isRelationalAnchor = true → size = .fixed)
    (hcenter : type.isRelationalAnchor = false →
      ∃ a b, r = some a ∧ r' = some b ∧ a.Alike v b w)
    (hid : src.uniqueId = src'.uniqueId) (hmargins : SameMargins src.uniqueId v w)
    (hsrc : src.Alike v src' w) (hl : l.Alike v l' w)
    (h : formula type size src l r v = true) : formula type size src' l' r' w = true := by
  have hstart : src.positionStart v = src'.positionStart w := hsrc.edge .start
  have hend : src.positionEnd v = src'.positionEnd w := hsrc.edge .end
  have hmarginStart : src.marginStart v = src'.marginStart w :=
    hmargins.start.trans (congrArg w.marginStart hid)
  have hmarginEnd : src.marginEnd v = src'.marginEnd w :=
    hmargins.end.trans (congrArg w.marginEnd hid)
  have hbias : src.bias v = src'.bias w := hmargins.bias.trans (congrArg w.bias hid)
  obtain ⟨s, hsides, hrel, _⟩ | ⟨s, hsides, hrel, _⟩ | ⟨s, e, hsides, hrel, _⟩ := type.sides_cases
  · obtain rfl := hrelational hrel
    rw [formula_start hsides, decide_eq_true_eq] at h ⊢
    rwa [hstart, hl.edge, hmarginStart] at h
  · obtain rfl := hrelational hrel
    rw [formula_end hsides, decide_eq_true_eq] at h ⊢
    rwa [hend, hl.edge, hmarginEnd] at h
  · obtain ⟨a, b, rfl, rfl, hr⟩ := hcenter hrel
    by_cases hsize : size = .fixed
    · subst hsize
      by_cases hsame : s = e ∧ l.pos = a.pos
      · obtain ⟨rfl, hpos⟩ := hsame
        have hpos' : l'.pos = b.pos := by rw [← hl.pos, ← hr.pos, hpos]
        rw [formula_center_same hsides hpos, hstart, hend, hl.edge, hr.edge, hmarginStart,
          hmarginEnd, hbias] at h
        exact (formula_center_same hsides hpos' w).mpr h
      · have hsame' : ¬ (s = e ∧ l'.pos = b.pos) := by rwa [← hl.pos, ← hr.pos]
        have hroot : l.positionStart v = l'.positionStart w := hl.edge .start
        have hrootEnd : a.positionEnd v = b.positionEnd w := hr.edge .end
        rw [formula_center hsides hsame, hstart, hend, hl.edge, hr.edge, hmarginStart,
          hmarginEnd, hbias, hl.pos, hr.pos, hroot, hrootEnd] at h
        exact (formula_center hsides hsame' w).mpr h
    · rw [formula_match hsides hsize, hstart, hend, hl.edge, hr.edge, hmarginStart,
        hmarginEnd] at h
      exact (formula_match hsides hsize src' l' b w).mpr h

/-- The formula of an attribute on two screens on which its views are alike. -/
theorem attributeValue_alike {app : App Prob} {o : Orientation} {attr : Attribute Prob} {p : Nat}
    (hproper : attr.Proper app.views.length o p) {views views' : List Z3View} {v w : Assignment K}
    (hid : (findView views p).uniqueId = (findView views' p).uniqueId)
    (hmargins : SameMargins (findView views p).uniqueId v w)
    (hviews : ∀ t, t = p ∨ t ∈ attr.targets → (findView views t).Alike v (findView views' t) w)
    (h : attributeValue views attr v = true) : attributeValue views' attr w = true := by
  rw [attributeValue, hproper.own] at h ⊢
  apply formula_alike _ _ hid hmargins (hviews p (.inl rfl))
    (hviews _ (.inr attr.primary_mem_targets)) h
  · intro hrel
    exact (hproper.relational hrel).2
  · intro hcen
    obtain ⟨r, _, hsome⟩ := hproper.center hcen
    refine ⟨_, _, by rw [hsome]; rfl, by rw [hsome]; rfl, ?_⟩
    exact hviews r (.inr (Attribute.secondary_mem_targets hcen hsome))

/-! ## Positions for the selected attributes -/

variable {app : App Prob} {o : Orientation} {v w : Assignment K} {pos : Nat → Int × Int}

/-- At the positions `pos`, with the sizes of the app, the selected ones among `attrs` hold. -/
def Carries (app : App Prob) (o : Orientation) (attrs : Nat → List (Attribute Prob))
    (v : Assignment K) (pos : Nat → Int × Int) : Prop :=
  ∀ p, p ≠ 0 → p < app.views.length → ∀ attr ∈ attrs p,
    v.select (attributeName (convertViews app o 0) attr) = true →
    attributeValue (convertViews app o 0) attr (v.withPositions o pos) = true ∧
    if attr.viewSize = .fixed then (pos p).1 + (app.views[p]?).elim 0 (·.size o) = (pos p).2
    else 0 ≤ (pos p).2 - (pos p).1

/-- An attribute holds at `pos` on one screen if it does on another. -/
theorem attributeValue_at {device device' : App Prob} {d d' p : Nat} {attr : Attribute Prob}
    (hn : device.views.length = app.views.length) (hn' : device'.views.length = app.views.length)
    (hproper : attr.Proper app.views.length o p) (hlt : p < app.views.length)
    (hv : HasPositions app.views.length o pos v d) (hw : HasPositions app.views.length o pos w d')
    (hmargins : SameMargins (uniqueId p o) v w)
    (h : attributeValue (convertViews device o d) attr v = true) :
    attributeValue (convertViews device' o d') attr w = true := by
  have hid := findView_uniqueId (o := o) (d := d) (hn ▸ hlt : p < device.views.length)
  have hid' := findView_uniqueId (o := o) (d := d') (hn' ▸ hlt : p < device'.views.length)
  apply attributeValue_alike hproper (hid.trans hid'.symm) (hid ▸ hmargins) _ h
  rintro t (rfl | ht)
  · exact hv.alike hn hn' hw hlt
  · exact hv.alike hn hn' hw (hproper.targets_lt ht)

/-- A screen with the right frame satisfies what a target app is asserted. -/
theorem Carries.models {c : CandidateConstraints app o} (h : Carries app o c.getAttributes v pos)
    {target : App Prob} {root : View Prob} {d : Nat}
    (hn : target.views.length = app.views.length) (hroot : target.views[0]? = some root)
    (hframe : pos 0 = (root.startAt o, root.endAt o)) (hselect : w.select = v.select)
    (hmargins : ∀ u, SameMargins u v w) (hw : HasPositions app.views.length o pos w d) :
    Models (assertRoot (convertViews target o d)) w ∧
      Models (addGenAttributes (convertViews target o d) c) w := by
  have hpos := (List.getElem?_eq_some_iff.mp hroot).1
  constructor
  · have hstart := hw.start 0 (hn ▸ hpos)
    have hend := hw.end 0 (hn ▸ hpos)
    rw [hframe] at hstart hend
    exact (models_assertPosition hroot).mpr ⟨hstart, hend⟩
  · rw [models_addGenAttributes]
    intro p hp hlt attr hattr
    rw [hn] at hlt
    have hproper := CandidateConstraints.getAttributes_proper hattr
    rw [genAttribute, implies_eq_true, attributeName_device hn hproper hlt, hselect]
    intro hsel
    obtain ⟨hvalue, hsize⟩ := h p hp hlt attr hattr hsel
    have hstart := hw.start p hlt
    have hend := hw.end p hlt
    have hview := List.getElem?_eq_getElem (hn ▸ hlt : p < target.views.length)
    rw [Bool.and_eq_true]
    constructor
    · have hplaced := hasPositions_withPositions app.views.length v o pos 0
      obtain ⟨hms, hme, hb⟩ := hmargins (uniqueId p o)
      exact attributeValue_at rfl hn hproper hlt hplaced hw ⟨hms, hme, hb⟩ hvalue
    · rw [hproper.own, findView_eq hview]
      simp only [Z3View.positionStart, Z3View.positionEnd, Z3View.uniqueId, hstart, hend]
      split at hsize
      · rename_i hfixed
        rw [if_pos hfixed]
        exact decide_eq_true hsize
      · rename_i hfixed
        rw [if_neg hfixed]
        exact decide_eq_true hsize

/-! ## A screen that was seen before -/

/-- The positions on a screen on which the selected attributes hold. -/
theorem carries_positionsOn {attrs : Nat → List (Attribute Prob)} {device : App Prob} {d : Nat}
    (hproper : ∀ p, ∀ attr ∈ attrs p, attr.Proper app.views.length o p)
    (hn : device.views.length = app.views.length)
    (h : ∀ p, p ≠ 0 → p < app.views.length → ∀ attr ∈ attrs p,
      v.select (attributeName (convertViews app o 0) attr) = true →
      attributeValue (convertViews device o d) attr v = true ∧
      if attr.viewSize = .fixed then (positionsOn v o d p).1 + (app.views[p]?).elim 0 (·.size o) =
        (positionsOn v o d p).2
      else 0 ≤ (positionsOn v o d p).2 - (positionsOn v o d p).1) :
    Carries app o attrs v (positionsOn v o d) := by
  intro p hp hlt attr hattr hsel
  obtain ⟨hvalue, hsize⟩ := h p hp hlt attr hattr hsel
  have hthere : HasPositions app.views.length o (positionsOn v o d) v d :=
    ⟨fun _ _ => rfl, fun _ _ => rfl⟩
  have hhere := hasPositions_withPositions app.views.length v o (positionsOn v o d) 0
  exact ⟨attributeValue_at hn rfl (hproper p attr hattr) hlt hthere hhere ⟨rfl, rfl, rfl⟩ hvalue,
    hsize⟩

theorem genAttribute_sized {device : App Prob} {d p : Nat} {attr : Attribute Prob}
    (hn : device.views.length = app.views.length) (hproper : attr.Proper app.views.length o p)
    (hlt : p < app.views.length) (h : genAttribute app o (convertViews device o d) attr v = true)
    (hsel : v.select (attributeName (convertViews app o 0) attr) = true) :
    attributeValue (convertViews device o d) attr v = true ∧
      if attr.viewSize = .fixed then (positionsOn v o d p).1 + (app.views[p]?).elim 0 (·.size o) =
        (positionsOn v o d p).2
      else 0 ≤ (positionsOn v o d p).2 - (positionsOn v o d p).1 := by
  have hboth := genAttribute_selected hn hproper hlt h hsel
  rwa [findView_eq (List.getElem?_eq_getElem (hn ▸ hlt))] at hboth

/-- Where a device's views are, the selected attributes of the app hold. -/
theorem carries_device {c : CandidateConstraints app o} {device : App Prob} {d : Nat}
    (hn : device.views.length = app.views.length)
    (h : ∀ p, p ≠ 0 → p < device.views.length → ∀ attr ∈ c.getAttributes p,
      genAttribute app o (convertViews device o d) attr v = true) :
    Carries app o c.getAttributes v (positionsOn v o d) := by
  refine carries_positionsOn (fun p attr => CandidateConstraints.getAttributes_proper) hn ?_
  intro p hp hlt attr hattr hsel
  exact genAttribute_sized hn (CandidateConstraints.getAttributes_proper hattr) hlt
    (h p hp (hn ▸ hlt) attr hattr) hsel

omit [FloorRing K] in
theorem positionsOn_reference {p : Nat} {view : View Prob}
    (h : Models (addPositionConstraints (convertViews app o 0) true) v)
    (hview : app.views[p]? = some view) :
    positionsOn v o 0 p = (view.startAt o, view.endAt o) := by
  obtain ⟨_, ⟨hstart, hend⟩, _⟩ := models_addPositionConstraints.mp h p view hview
  exact Prod.ext hstart hend

/-- Where the views of the app are, its selected attributes hold. -/
theorem carries_reference {printed : Prob → K} {c : CandidateConstraints app o}
    (hsize : ∀ view ∈ app.views, 0 ≤ view.size o)
    (hposition : Models (addPositionConstraints (convertViews app o 0) true) v)
    (hsyn : Models (addSynAttributes printed (convertViews app o 0) c false) v) :
    Carries app o c.getAttributes v (positionsOn v o 0) := by
  refine carries_positionsOn (fun p attr => CandidateConstraints.getAttributes_proper) rfl ?_
  intro p hp hlt attr hattr hsel
  have hvalue := (models_synAttribute.mp (models_addSynAttributes.mp hsyn p hp hlt attr hattr)).1
  refine ⟨(hvalue hsel).1, ?_⟩
  have hview := List.getElem?_eq_getElem hlt
  have hnonneg := hsize _ (List.getElem_mem hlt)
  rw [View.size_eq] at hnonneg
  simp only [positionsOn_reference hposition hview, hview, Option.elim_some, View.size_eq]
  split <;> omega

/-- A view stretched inside the frame is smaller by its margins than the frame of any screen. -/
theorem length_of_stretched {device : App Prob} {d p : Nat} {attr : Attribute Prob}
    (hn : device.views.length = app.views.length) (hproper : attr.Proper app.views.length o p)
    (hlt : p < app.views.length) (hsize : attr.viewSize ≠ .fixed)
    (hsides : attr.type.sides = (some .start, some .end)) (hprimary : attr.tgtPrimary = 0)
    (hsecondary : attr.tgtSecondary = some 0)
    (h : attributeValue (convertViews device o d) attr v = true) :
    (positionsOn v o d p).2 - (positionsOn v o d p).1 =
      (positionsOn v o d 0).2 - (positionsOn v o d 0).1 -
        (v.marginStart (uniqueId p o) + v.marginEnd (uniqueId p o)) := by
  have hview := List.getElem?_eq_getElem (hn ▸ hlt : p < device.views.length)
  have hroot := List.getElem?_eq_getElem (hn ▸ Nat.zero_lt_of_lt hlt : 0 < device.views.length)
  rw [attributeValue, hproper.own, hprimary, hsecondary, Option.map_some,
    formula_match hsides hsize, findView_eq hview, findView_eq hroot] at h
  obtain ⟨hstart, hend⟩ := h
  simp only [Z3View.positionStart, Z3View.positionEnd, Z3View.edge, Z3View.marginStart,
    Z3View.marginEnd, Z3View.uniqueId] at hstart hend
  simp only [positionsOn, hstart, hend]
  omega

/-! ## A screen of any size -/

/-- An attribute that can be satisfied on every screen: it neither stretches its view nor holds
it inside the frame. -/
def Attribute.Elastic (attr : Attribute Prob) : Prop :=
  attr.viewSize = .fixed ∧
    ¬ (attr.type.sides = (some .start, some .end) ∧ attr.tgtPrimary = 0 ∧
      attr.tgtSecondary = some 0)

/-- Where an attribute of fixed size puts its view, from the edges of its targets. -/
def Attribute.place (attr : Attribute Prob) (size marginStart marginEnd : Int) (bias : K)
    (l r : Int × Int) : Int × Int :=
  match attr.type.sides with
  | (some s, none) => (side l s + marginStart, side l s + marginStart + size)
  | (none, some s) => (side l s - marginEnd - size, side l s - marginEnd)
  | (some s, some e) =>
    let start := ⌊(1 - bias) * (side l s + marginStart) + bias * (side r e - marginEnd) -
      bias * size + 1 / 2⌋
    (start, start + size)
  | (none, none) => (0, size)

theorem Attribute.place_size (attr : Attribute Prob) (size marginStart marginEnd : Int) (bias : K)
    (l r : Int × Int) : (attr.place size marginStart marginEnd bias l r).1 + size =
      (attr.place size marginStart marginEnd bias l r).2 := by
  obtain ⟨s, hsides, _⟩ | ⟨s, hsides, _⟩ | ⟨s, e, hsides, _⟩ := attr.type.sides_cases <;>
    simp [Attribute.place, hsides]

variable [IsStrictOrderedRing K]

/-- An elastic attribute that holds on the reference also holds where it puts its view. -/
theorem attributeValue_place {attr : Attribute Prob} {p : Nat} {size : Int}
    (hproper : attr.Proper app.views.length o p) (hlt : p < app.views.length)
    (helastic : attr.Elastic) (hvalue : attributeValue (convertViews app o 0) attr v = true)
    (hpos : pos p = attr.place size (v.marginStart (uniqueId p o)) (v.marginEnd (uniqueId p o))
      (v.bias (uniqueId p o)) (pos attr.tgtPrimary)
      (attr.tgtSecondary.elim (0, 0) pos)) :
    attributeValue (convertViews app o 0) attr (v.withPositions o pos) = true := by
  have hsize := attr.place_size size (v.marginStart (uniqueId p o)) (v.marginEnd (uniqueId p o))
    (v.bias (uniqueId p o)) (pos attr.tgtPrimary) (attr.tgtSecondary.elim (0, 0) pos)
  rw [← hpos] at hsize
  have hid := findView_uniqueId (o := o) (d := 0) hlt
  have hstart : (findView (convertViews app o 0) p).positionStart (v.withPositions o pos) =
      (pos p).1 := edge_withPositions hlt .start
  have hend : (findView (convertViews app o 0) p).positionEnd (v.withPositions o pos) =
      (pos p).1 + size := (edge_withPositions hlt .end).trans hsize.symm
  have hl (s : Side) : (findView (convertViews app o 0) attr.tgtPrimary).edge s
      (v.withPositions o pos) = side (pos attr.tgtPrimary) s :=
    edge_withPositions hproper.primary s
  have hmarginStart : (findView (convertViews app o 0) p).marginStart (v.withPositions o pos) =
      v.marginStart (uniqueId p o) := congrArg v.marginStart hid
  have hmarginEnd : (findView (convertViews app o 0) p).marginEnd (v.withPositions o pos) =
      v.marginEnd (uniqueId p o) := congrArg v.marginEnd hid
  have hbias : (findView (convertViews app o 0) p).bias (v.withPositions o pos) =
      v.bias (uniqueId p o) := congrArg v.bias hid
  rw [attributeValue, hproper.own, helastic.1] at hvalue ⊢
  obtain ⟨s, hsides, _⟩ | ⟨s, hsides, _⟩ | ⟨s, e, hsides, hcen, _⟩ := attr.type.sides_cases
  · rw [formula_start hsides, decide_eq_true_eq, hstart, hl, hmarginStart, hpos, Attribute.place]
    simp only [hsides]
  · rw [formula_end hsides, decide_eq_true_eq, hend, hl, hmarginEnd, hpos, Attribute.place]
    simp only [hsides]
    omega
  · obtain ⟨r, hr, hsome⟩ := hproper.center hcen
    have hr' (s : Side) : (findView (convertViews app o 0) r).edge s (v.withPositions o pos) =
        side (pos r) s := edge_withPositions hr s
    have hfirst : (pos p).1 = ⌊(1 - v.bias (uniqueId p o)) *
        (side (pos attr.tgtPrimary) s + v.marginStart (uniqueId p o)) + v.bias (uniqueId p o) *
        (side (pos r) e - v.marginEnd (uniqueId p o)) - v.bias (uniqueId p o) * size + 1 / 2⌋ := by
      rw [hpos, Attribute.place, hsome]
      simp only [hsides, Option.elim_some]
    rw [hsome, Option.map_some] at hvalue ⊢
    by_cases hsame : s = e ∧ (findView (convertViews app o 0) attr.tgtPrimary).pos =
        (findView (convertViews app o 0) r).pos
    · obtain ⟨rfl, hpos'⟩ := hsame
      obtain ⟨hms, hme, _⟩ := (formula_center_same hsides hpos' v).mp hvalue
      rw [Z3View.marginStart, hid] at hms
      rw [Z3View.marginEnd, hid] at hme
      refine (formula_center_same hsides hpos' _).mpr ⟨hmarginStart.trans hms,
        hmarginEnd.trans hme, ?_⟩
      rw [hms, hme] at hfirst
      rw [hbias, hl, hr', hstart, hend, round_gap, hfirst, sub_self]
    · refine (formula_center hsides hsame _).mpr ⟨?_, ?_⟩
      · rw [hbias, hl, hr', hmarginStart, hmarginEnd, hstart, hend, round_gap, ← hfirst, sub_self]
      · rintro rfl rfl hl0 hr0
        rw [findView_pos hproper.primary] at hl0
        rw [findView_pos hr] at hr0
        exact absurd ⟨hsides, hl0, hr0 ▸ hsome⟩ helastic.2

/-- In anchor order, elastic attributes leave a place for every view inside any frame. -/
theorem exists_carries {c : CandidateConstraints app o}
    (hchosen : ∀ p, p ≠ 0 → p < app.views.length → ∃ attr, Chosen c v p attr)
    (helastic : ∀ p, p ≠ 0 → p < app.views.length → ∀ attr ∈ c.getAttributes p, attr.Elastic)
    (frame : Int × Int) :
    ∃ pos : Nat → Int × Int, pos 0 = frame ∧ Carries app o c.getAttributes v pos := by
  classical
  let chosen (p : Nat) : Option (Attribute Prob) :=
    if h : p ≠ 0 ∧ p < app.views.length then some (hchosen p h.1 h.2).choose else none
  let step (pos : Nat → Int × Int) (p : Nat) : Int × Int :=
    (chosen p).elim frame fun attr =>
      attr.place ((app.views[p]?).elim 0 (·.size o)) (v.marginStart (uniqueId p o))
        (v.marginEnd (uniqueId p o)) (v.bias (uniqueId p o)) (pos attr.tgtPrimary)
        (attr.tgtSecondary.elim (0, 0) pos)
  have hspec (p : Nat) (hp : p ≠ 0) (hlt : p < app.views.length) :
      ∃ attr, chosen p = some attr ∧ Chosen c v p attr :=
    ⟨_, dif_pos ⟨hp, hlt⟩, (hchosen p hp hlt).choose_spec⟩
  obtain ⟨pos, hpos⟩ := Search.exists_by_rank (fun p => (v.anchor (uniqueId p o)).toNat) step (by
    intro f g p hfg
    by_cases h : p ≠ 0 ∧ p < app.views.length
    · obtain ⟨attr, hattr, hc⟩ := hspec p h.1 h.2
      have hprimary := hfg _ (hc.anchor_lt _ attr.primary_mem_targets)
      have hsecondary : attr.tgtSecondary.elim (0, 0) f = attr.tgtSecondary.elim (0, 0) g := by
        cases hsome : attr.tgtSecondary with
        | none => rfl
        | some r =>
          have hcen : attr.type.isRelationalAnchor = false := by
            by_contra hrel
            have hnone := (hc.proper.relational (by simpa using hrel)).1
            rw [hsome] at hnone
            cases hnone
          exact hfg _ (hc.anchor_lt _ (Attribute.secondary_mem_targets hcen hsome))
      simp only [step, hattr, Option.elim_some, hprimary, hsecondary]
    · simp only [step, chosen, dif_neg h, Option.elim_none])
  refine ⟨pos, ?_, ?_⟩
  · rw [hpos 0]
    simp [step, chosen]
  · intro p hp hlt attr hattr hsel
    obtain ⟨attr', hattr', hc⟩ := hspec p hp hlt
    obtain rfl := hc.unique hattr hsel
    have hplaced : pos p = attr.place ((app.views[p]?).elim 0 (·.size o))
        (v.marginStart (uniqueId p o)) (v.marginEnd (uniqueId p o)) (v.bias (uniqueId p o))
        (pos attr.tgtPrimary) (attr.tgtSecondary.elim (0, 0) pos) := by
      rw [hpos p]
      simp only [step, hattr', Option.elim_some]
    have hfixed := helastic p hp hlt attr hattr
    refine ⟨attributeValue_place hc.proper hlt hfixed hc.value hplaced, ?_⟩
    rw [if_pos hfixed.1, hplaced]
    exact attr.place_size ..

end
end InferUI
