import InferUI.AppMerge
import InferUI.Placement
import InferUI.Targets

/-!
# The candidates of the oracle

`SynthesizeDeviceProbOracle` from end to end, and `computeCandidates`: one loop for each
orientation blocks the layouts that were found before on the first target device, and every
vertical result is combined with every horizontal one.
-/

namespace InferUI
open Store CandidateConstraints
variable {Prob K : Type}

/-! ## One call -/

section
variable [Field K] [LinearOrder K] [FloorRing K] {app : App Prob} {o : Orientation}

end

/-! ## All calls -/

/-- The target device on which the candidates must differ. -/
def distinguishingDevice : Nat := 0

section
variable [Field K] [LinearOrder K] [FloorRing K] [Zero Prob] {app : App Prob} {o : Orientation}

end

section
variable [Field K] [LinearOrder K] [FloorRing K] [Zero Prob] {app : App Prob}

end

/-! ## Screens on which the selected attributes hold -/

section
variable [Field K] [LinearOrder K] [FloorRing K] [IsStrictOrderedRing K]
variable {app : App Prob} {o : Orientation} {c : CandidateConstraints app o} {v : Assignment K}

/-- What is selected leaves one position for every view on a screen with a given frame. -/
theorem Carries.unique {pos pos' : Nat → Int × Int}
    (hchosen : ∀ p, p ≠ 0 → p < app.views.length → ∃ attr, Chosen c v p attr)
    (h : Carries app o c.getAttributes v pos) (h' : Carries app o c.getAttributes v pos')
    (hroot : pos 0 = pos' 0) {p : Nat} (hlt : p < app.views.length) : pos p = pos' p := by
  -- the anchor variables are below each other at targets
  have hboth : ∀ p, p ≠ 0 → p < app.views.length → ∃ (w : Assignment K) (attr : Attribute Prob),
      attr.PlacesBoth app o pos pos' p w ∧
      ∀ t ∈ attr.targets, (v.anchor (uniqueId t o)).toNat < (v.anchor (uniqueId p o)).toNat := by
    intro p hp hlt
    obtain ⟨attr, hattr⟩ := hchosen p hp hlt
    exact ⟨v, attr, ⟨hattr.proper, h p hp hlt attr hattr.mem hattr.selected,
      h' p hp hlt attr hattr.mem hattr.selected⟩, hattr.anchor_lt⟩
  exact places_unique hboth hroot hlt

end

/-! ## The target apps -/

section
variable {app : App Prob}

theorem setPosition_same (view : View Prob) (start «end» : Int) (o : Orientation) :
    (view.setPosition start «end» o).id = view.id ∧
      (view.setPosition start «end» o).attributes = view.attributes := by
  cases o <;> exact ⟨rfl, rfl⟩

/-- Placing the views keeps the rest of an app. -/
theorem App.Twin.assignAllPositions {device : App Prob} (h : app.Twin device) (o : Orientation)
    (z3Views : List Z3View) (v : Assignment K) :
    app.Twin (device.assignAllPositions o z3Views v) := by
  have hattribute (o' : Orientation) (p : Nat) :
      (device.assignAllPositions o z3Views v).getAttribute o' p = device.getAttribute o' p := by
    apply App.getAttribute_updateViews
    intro p view
    split
    · rfl
    · exact (setPosition_same ..).2
  refine ⟨?_, ?_, ?_⟩
  · rw [App.assignAllPositions, App.ids_updateViews, h.ids]
    intro p view
    split
    · rfl
    · exact (setPosition_same ..).1
  · intro o' p attr hattr
    rw [length_assignAllPositions]
    exact h.pointed o' p attr (hattribute o' p ▸ hattr)
  · intro o' p attr hattr
    exact h.checked o' p attr (hattribute o' p ▸ hattr)

end

/-! ## What a call finds -/

/-- The margins that are written are not negative. -/
theorem writtenMargins_nonneg {view : Z3View} {v : Assignment K} (hstart : 0 ≤ view.marginStart v)
    (hend : 0 ≤ view.marginEnd v) (type : ConstraintType) (size : ViewSize) :
    0 ≤ (view.writtenMargins v type size).1 ∧ 0 ≤ (view.writtenMargins v type size).2 := by
  have hmargins : 0 ≤ (view.getMargins v type).1 ∧ 0 ≤ (view.getMargins v type).2 := by
    constructor <;> simp only [Z3View.getMargins] <;> split <;> first | assumption | exact le_rfl
  rw [Z3View.writtenMargins]
  split
  · simp only [adjustMargins]
    omega
  · exact hmargins

section
variable [Field K] [LinearOrder K] [FloorRing K] [Zero Prob] {app : App Prob} {o : Orientation}

/-- A written attribute passes the checks of its constructor. -/
theorem checked_written {attr : Attribute Prob} {p : Nat}
    (hproper : attr.Proper app.views.length o p) {view : Z3View} {v : Assignment K}
    (hstart : 0 ≤ view.marginStart v) (hend : 0 ≤ view.marginEnd v) :
    (attr.written view v).Checked := by
  obtain ⟨hprimary, hsecondary⟩ := writtenMargins_nonneg hstart hend attr.type attr.viewSize
  refine ⟨?_, hprimary, hsecondary⟩
  change attr.tgtSecondary.isSome = attr.type.isCenterAnchor
  cases hrel : attr.type.isRelationalAnchor with
  | true => simp [(hproper.relational hrel).1, ConstraintType.isCenterAnchor, hrel]
  | false =>
    obtain ⟨r, _, hsome⟩ := hproper.center hrel
    simp [hsome, ConstraintType.isCenterAnchor, hrel]

theorem ids_assignModels (views : List Z3View) (constraints : Nat → List ConstraintData)
    (o : Orientation) (v : Assignment K) (app : App Prob) :
    (assignModels views constraints o v app).views.map (·.id) = app.views.map (·.id) := by
  apply List.ext_getElem
  · rw [List.length_map, List.length_map, length_assignModels]
  · intro p hp hp'
    rw [List.length_map] at hp hp'
    rw [List.getElem_map, List.getElem_map, ← App.idOf_eq _ hp, ← App.idOf_eq _ hp',
      idOf_assignModels]

/-- Writing the selected candidates to a twin leaves a twin, with an attribute for every view. -/
theorem App.Twin.assignModels {other : App Prob} (h : app.Twin other)
    {c : CandidateConstraints app o} {v : Assignment K}
    (hchosen : ∀ p, p ≠ 0 → p < app.views.length → ∃ attr, Chosen c v p attr)
    (hposition : Models (addPositionConstraints (convertViews app o 0) true) v) :
    app.Twin (assignModels (convertViews app o 0) (selectionNames c) o v other) ∧
      ∀ p, p ≠ 0 → p < app.views.length → ((InferUI.assignModels (convertViews app o 0)
        (selectionNames c) o v other).getAttribute o p).isSome = true := by
  have hget (o' : Orientation) (p : Nat) :
      (InferUI.assignModels (convertViews app o 0) (selectionNames c) o v other).getAttribute o' p =
        if o' = o ∧ p ≠ 0 ∧ p < app.views.length then
          (assigned (convertViews app o 0) (selectionNames c) v p).or (other.getAttribute o' p)
        else other.getAttribute o' p :=
    getAttribute_assignModels h.length o' p
  have hmargins {p : Nat} (hlt : p < app.views.length) :
      0 ≤ (findView (convertViews app o 0) p).marginStart v ∧
        0 ≤ (findView (convertViews app o 0) p).marginEnd v := by
    have hview := List.getElem?_eq_getElem hlt
    rw [findView_eq hview]
    exact (models_addPositionConstraints.mp hposition p _ hview).1
  have hattribute {o' : Orientation} {p : Nat} {attr : Attribute Prob}
      (hattr : (InferUI.assignModels (convertViews app o 0) (selectionNames c) o v
        other).getAttribute o' p = some attr) :
      (attr.src = p ∧ attr.tgtPrimary < app.views.length ∧
        ∀ t, attr.tgtSecondary = some t → t < app.views.length) ∧ attr.Checked := by
    rw [hget] at hattr
    split at hattr
    · rename_i hwritten
      obtain ⟨rfl, hp, hlt⟩ := hwritten
      obtain ⟨chosen, hc⟩ := hchosen p hp hlt
      have hproper := hc.proper
      rw [hc.assigned_eq hp hlt, Option.some_or, Option.some.injEq] at hattr
      subst hattr
      refine ⟨⟨hproper.own, hproper.primary, ?_⟩, checked_written hproper (hmargins hlt).1
        (hmargins hlt).2⟩
      intro t ht
      cases hrel : chosen.type.isRelationalAnchor with
      | true => exact absurd (ht.symm.trans (hproper.relational hrel).1) (by simp)
      | false =>
        obtain ⟨r, hr, hsome⟩ := hproper.center hrel
        exact Option.some.inj (hsome.symm.trans ht) ▸ hr
    · exact ⟨h.length ▸ h.pointed _ _ _ hattr, h.checked _ _ _ hattr⟩
  refine ⟨⟨(ids_assignModels ..).trans h.ids, ?_, fun _ _ _ hattr => (hattribute hattr).2⟩, ?_⟩
  · intro o' p attr hattr
    rw [length_assignModels, h.length]
    exact (hattribute hattr).1
  · intro p hp hlt
    obtain ⟨chosen, hc⟩ := hchosen p hp hlt
    rw [hget, if_pos ⟨rfl, hp, hlt⟩, hc.assigned_eq hp hlt, Option.some_or]
    rfl

end

/-- What a call adds to the candidates: all apps are twins, and every view of the app has an
attribute. -/
structure Found (app : App Prob) (o : Orientation) (targetApps : List (App Prob))
    (entry : Layouts Prob) : Prop where
  layout : app.Twin entry.app
  attributes : ∀ p, p ≠ 0 → p < app.views.length → (entry.app.getAttribute o p).isSome = true
  length : entry.deviceApps.length = targetApps.length
  deviceApps : ∀ device ∈ entry.deviceApps, app.Twin device

theorem Found.first {app : App Prob} {o : Orientation} {targetApps : List (App Prob)}
    {entry : Layouts Prob} (h : Found app o targetApps entry) (hdevices : targetApps ≠ []) :
    ∃ x, entry.deviceApps[distinguishingDevice]? = some x := by
  have hlt := List.length_pos_iff.mpr hdevices
  rw [← h.length] at hlt
  exact ⟨_, List.getElem?_eq_getElem hlt⟩

/-- Some view has another place. -/
def Apart (n : Nat) (o : Orientation) (a b : App Prob) : Prop :=
  ∃ p < n, ∃ s, a.edgeAt o p s ≠ b.edgeAt o p s

/-- What the loop of one orientation keeps: each candidate is blocked on the first target. -/
structure Collected (app : App Prob) (o : Orientation) (targetApps blockedApps : List (App Prob))
    (found : List (Layouts Prob)) : Prop where
  entries : ∀ entry ∈ found, Found app o targetApps entry
  blocked : found.map (·.deviceApps[distinguishingDevice]?) = blockedApps.map some
  apart : blockedApps.Pairwise (Apart app.views.length o)

section
variable {app : App Prob} {o : Orientation} {targetApps blockedApps : List (App Prob)}
variable {found : List (Layouts Prob)}

theorem Collected.length (h : Collected app o targetApps blockedApps found) :
    ∀ blocked ∈ blockedApps, blocked.views.length = app.views.length := by
  intro blocked hmem
  have hsome : some blocked ∈ found.map (·.deviceApps[distinguishingDevice]?) := by
    rw [h.blocked]
    exact List.mem_map_of_mem hmem
  obtain ⟨entry, hentry, hdevice⟩ := List.mem_map.mp hsome
  exact ((h.entries entry hentry).deviceApps blocked (List.mem_of_getElem? hdevice)).length

theorem Collected.add (h : Collected app o targetApps blockedApps found) {entry : Layouts Prob}
    {target : App Prob} (hentry : Found app o targetApps entry)
    (htarget : entry.deviceApps[distinguishingDevice]? = some target)
    (hapart : ∀ blocked ∈ blockedApps, Apart app.views.length o blocked target) :
    Collected app o targetApps (blockedApps ++ [target]) (found ++ [entry]) where
  entries other hother := by
    rcases List.mem_append.mp hother with hold | hnew
    · exact h.entries other hold
    · exact List.mem_singleton.mp hnew ▸ hentry
  blocked := by
    rw [List.map_append, List.map_append, h.blocked, List.map_singleton, List.map_singleton,
      htarget]
  apart := by
    rw [List.pairwise_append]
    refine ⟨h.apart, List.pairwise_singleton .., ?_⟩
    intro blocked hblocked other hother
    exact List.mem_singleton.mp hother ▸ hapart blocked hblocked

/-- Two layouts of which the first target apps are apart. -/
def FirstApart (n : Nat) (o : Orientation) (a b : Layouts Prob) : Prop :=
  ∃ x y, a.deviceApps[distinguishingDevice]? = some x ∧
    b.deviceApps[distinguishingDevice]? = some y ∧ Apart n o x y

theorem Collected.pairwise (h : Collected app o targetApps blockedApps found) :
    found.Pairwise (FirstApart app.views.length o) := by
  have hfirsts : (found.map (·.deviceApps[distinguishingDevice]?)).Pairwise fun a b =>
      ∃ x y, a = some x ∧ b = some y ∧ Apart app.views.length o x y := by
    rw [h.blocked, List.pairwise_map]
    exact h.apart.imp fun hapart => ⟨_, _, rfl, rfl, hapart⟩
  rw [List.pairwise_map] at hfirsts
  exact hfirsts

end

section
variable [Field K] [LinearOrder K] [FloorRing K] [IsStrictOrderedRing K] [Zero Prob]
variable {app : App Prob} {o : Orientation} {printed : Prob → K} {opt : Bool}
variable {deviceApps targetApps : List (App Prob)} {scorer : ConstraintCache app o}

end

/-! ## Combining them -/

section
variable {app : App Prob} {targetApps : List (App Prob)} {vertical horizontal : Layouts Prob}

end

section
variable [Field K] [LinearOrder K] [FloorRing K] [IsStrictOrderedRing K] [Zero Prob]
variable {app : App Prob}

end

end InferUI
