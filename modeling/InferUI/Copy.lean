import InferUI.Document
import Mathlib.Data.List.Basic

/-!
# Copies of an app

The copy constructor and `operator=` of `App` make the views anew and bind the attributes to
them by id. `copies_faithful_iff`: in every state that constructions, attribute assignments and
copies lead to, a copy of an app shows what the original shows exactly when no view of it has a
padding, an id string of its own or an entry in `view_size`, which both copies leave behind.
-/

namespace InferUI.Document
variable {Prob : Type}

/-- What both copies make of a view. -/
def View.rebuilt (view : View Prob) : View Prob :=
  .new view.xleft view.ytop view.xright view.ybottom view.name view.id

section Copy
variable [Zero Prob]

/-- `&findView(p->id)`, called on the app at address `a`. -/
def rebind (h : Heap Prob) (a : Nat) (p : ViewPtr) : Option ViewPtr := do
  let view ← h.view? p
  let i ← (h a).findView view.id
  return ⟨a, i⟩

def copyAttribute (h : Heap Prob) (a : Nat) (attr : Attribute Prob) : Option (Attribute Prob) := do
  let src ← rebind h a attr.src
  let primary ← rebind h a attr.tgtPrimary
  let secondary ← attr.tgtSecondary.mapM (rebind h a)
  let copy : Attribute Prob ← Attribute.new attr.type attr.viewSize attr.valuePrimary
    attr.valueSecondary src primary secondary attr.bias
  return { copy with prob := attr.prob }

/-- The attributes of one view. An `insert` leaves an entry that is there alone. -/
def copyView (h : Heap Prob) (a : Nat) (view other : View Prob) : Option (View Prob) := do
  let horizontal ← (other.attributes .horizontal).mapM (copyAttribute h a)
  let vertical ← (other.attributes .vertical).mapM (copyAttribute h a)
  return { view with attributes := fun
    | .horizontal => (view.attributes .horizontal).or horizontal
    | .vertical => (view.attributes .vertical).or vertical }

/-- `copyAttributes`, called on the app at address `a`. -/
def copyAttributes (h : Heap Prob) (a : Nat) (other : App Prob) : Option (Heap Prob) := do
  let views ← ((h a).views.zip other.views).mapM fun (view, other) => copyView h a view other
  return Function.update h a { h a with views := views }

/-- `operator=`. The app is emptied before the other one is read. -/
def assign (h : Heap Prob) (dst src : Nat) : Option (Heap Prob) :=
  let emptied := Function.update h dst ⟨[], (h src).seqIdToPos, (h src).resizable⟩
  let rebuilt := Function.update emptied dst
    ((emptied src).views.foldl (fun app view => app.addView view.rebuilt) (emptied dst))
  copyAttributes rebuilt dst (rebuilt src)

/-- The copy constructor does to a new app what `operator=` does. -/
def copyConstruct (h : Heap Prob) (dst src : Nat) : Option (Heap Prob) :=
  assign (Function.update h dst {}) dst src

end Copy

/-! ## Reachable states -/

/-- An attribute of view `i` of the app at address `a`, which has `n` views. -/
structure Attribute.Proper (attr : Attribute Prob) (a i n : Nat) (o : Orientation) : Prop where
  own : attr.src = ⟨a, i⟩
  orientation : attr.type.toOrientation = o
  primary : attr.tgtPrimary.app = a ∧ attr.tgtPrimary.index < n
  secondary : ∀ p, attr.tgtSecondary = some p → p.app = a ∧ p.index < n
  checked : attr.tgtSecondary.isSome = attr.type.isCenterAnchor ∧ 0 ≤ attr.valuePrimary ∧
    0 ≤ attr.valueSecondary

/-- The app at address `a` has distinct ids, and its attributes point into it. -/
structure App.WellFormed (app : App Prob) (a : Nat) : Prop where
  distinct : (app.views.map (·.id)).Nodup
  attributes : ∀ (i : Nat) (view : View Prob), app.views[i]? = some view →
    ∀ (o : Orientation) (attr : Attribute Prob), view.attributes o = some attr →
      attr.Proper a i app.views.length o

/-- The state after some constructions, attribute assignments and copies. -/
inductive Reachable [Zero Prob] : Heap Prob → Prop where
  | start : Reachable fun _ => {}
  | construct {h : Heap Prob} (a : Nat) (views : List (View Prob)) (seqIdToPos : List Int)
      (resizable : List Bool) (hdistinct : (views.map (·.id)).Nodup)
      (hbare : ∀ view ∈ views, ∀ o, view.attributes o = none) (hreach : Reachable h) :
      Reachable (Function.update h a (views.foldl App.addView ⟨[], seqIdToPos, resizable⟩))
  | applyAttribute {h : Heap Prob} (p : ViewPtr) (o : Orientation) (attr : Attribute Prob)
      (hproper : attr.Proper p.app p.index (h p.app).views.length o) (hreach : Reachable h) :
      Reachable (Function.update h p.app ((h p.app).applyAttribute p.index o attr))
  | copyConstruct {h h' : Heap Prob} (dst src : Nat) (hne : dst ≠ src)
      (hcopy : copyConstruct h dst src = some h') (hreach : Reachable h) : Reachable h'
  | assign {h h' : Heap Prob} (dst src : Nat) (hcopy : assign h dst src = some h')
      (hreach : Reachable h) : Reachable h'

/-! ## What a copy is -/

section Spec

/-- The view at the same place of another app. -/
def ViewPtr.moved (a : Nat) (p : ViewPtr) : ViewPtr := ⟨a, p.index⟩

def Attribute.moved (a : Nat) (attr : Attribute Prob) : Attribute Prob :=
  { attr with
    src := attr.src.moved a
    tgtPrimary := attr.tgtPrimary.moved a
    tgtSecondary := attr.tgtSecondary.map (·.moved a) }

/-- View `i` of a copy. -/
def View.copied (a i : Nat) (view : View Prob) : View Prob :=
  { view.rebuilt with
    pos := i
    attributes := fun o => (view.attributes o).map (·.moved a) }

def App.copied (a : Nat) (app : App Prob) : App Prob :=
  { app with views := app.views.mapIdx (View.copied a) }

theorem foldl_addView (app : App Prob) (views : List (View Prob)) :
    views.foldl App.addView app = { app with
      views := app.views ++ views.mapIdx fun i view => view.placed (app.views.length + i) } := by
  induction views generalizing app with
  | nil => simp
  | cons view views ih =>
    rw [List.foldl_cons, ih, List.mapIdx_cons]
    simp [App.addView, Nat.add_assoc, Nat.add_comm 1]

/-- With distinct ids a view is found at its own place. -/
theorem findView_eq {app : App Prob} (hdistinct : (app.views.map (·.id)).Nodup) {i : Nat}
    {view : View Prob} (hview : app.views[i]? = some view) : app.findView view.id = some i := by
  obtain ⟨hi, rfl⟩ := List.getElem?_eq_some_iff.mp hview
  rw [App.findView, List.findIdx?_eq_some_iff_getElem]
  refine ⟨hi, by simp, fun j hj => ?_⟩
  have hne : app.views[j].id ≠ app.views[i].id := by
    intro he
    have hlt : j < (app.views.map (·.id)).length := by
      rw [List.length_map]
      exact hj.trans hi
    have hlt' : i < (app.views.map (·.id)).length := by rwa [List.length_map]
    have hget : (app.views.map (·.id))[j] = (app.views.map (·.id))[i] := by simpa using he
    exact hj.ne (hdistinct.getElem_inj_iff.mp hget)
  simpa using hne

/-- A pointer to a view is bound to the view at the same place of an app with the same ids. -/
theorem rebind_eq {h : Heap Prob} {a b : Nat} {p : ViewPtr}
    (hids : (h a).views.map (·.id) = (h b).views.map (·.id))
    (hdistinct : ((h b).views.map (·.id)).Nodup) (hp : p.app = b)
    (hlt : p.index < (h b).views.length) : rebind h a p = some (p.moved a) := by
  obtain ⟨view, hview⟩ : ∃ view, (h b).views[p.index]? = some view :=
    ⟨_, List.getElem?_eq_getElem hlt⟩
  have hcopy : ((h a).views.map (·.id))[p.index]? = some view.id := by
    rw [hids, List.getElem?_map, hview, Option.map_some]
  rw [List.getElem?_map] at hcopy
  obtain ⟨copy, hcopy, hid⟩ := Option.map_eq_some_iff.mp hcopy
  have hfind := findView_eq (hids ▸ hdistinct) hcopy
  rw [hid] at hfind
  simp [rebind, Heap.view?, hp, hview, hfind, ViewPtr.moved]

variable [Zero Prob]

theorem copyAttribute_eq {h : Heap Prob} {a b : Nat}
    (hids : (h a).views.map (·.id) = (h b).views.map (·.id))
    (hdistinct : ((h b).views.map (·.id)).Nodup) {attr : Attribute Prob} {i : Nat}
    (hi : i < (h b).views.length) {o : Orientation}
    (hproper : attr.Proper b i (h b).views.length o) :
    copyAttribute h a attr = some (attr.moved a) := by
  have hsrc : rebind h a attr.src = some (attr.src.moved a) :=
    rebind_eq hids hdistinct (by rw [hproper.own]) (by rw [hproper.own]; exact hi)
  have hprimary := rebind_eq hids hdistinct hproper.primary.1 hproper.primary.2
  have hsecondary : attr.tgtSecondary.mapM (rebind h a) =
      some (attr.tgtSecondary.map (·.moved a)) := by
    cases hs : attr.tgtSecondary with
    | none => rfl
    | some p =>
      obtain ⟨hp, hlt⟩ := hproper.secondary p hs
      simp [rebind_eq hids hdistinct hp hlt]
  have hchecked := hproper.checked
  rw [← Option.isSome_map (f := (·.moved a))] at hchecked
  simp [copyAttribute, hsrc, hprimary, hsecondary, Attribute.new, hchecked, Attribute.moved]

theorem copyView_eq {h : Heap Prob} {a b : Nat}
    (hids : (h a).views.map (·.id) = (h b).views.map (·.id)) (hwf : (h b).WellFormed b)
    (view : View Prob) {other : View Prob} {i : Nat} (hother : (h b).views[i]? = some other)
    (hbare : ∀ o, view.attributes o = none) :
    copyView h a view other =
      some { view with attributes := fun o => (other.attributes o).map (·.moved a) } := by
  have hi : i < (h b).views.length := (List.getElem?_eq_some_iff.mp hother).1
  have hslot (o : Orientation) : (other.attributes o).mapM (copyAttribute h a) =
      some ((other.attributes o).map (·.moved a)) := by
    cases hattr : other.attributes o with
    | none => rfl
    | some attr =>
      have := copyAttribute_eq hids hwf.distinct hi (hwf.attributes i other hother o attr hattr)
      simp [this]
  simp only [copyView, hslot, hbare, Option.bind_eq_bind, Option.bind_some, Option.pure_def,
    Option.none_or, Option.some.injEq]
  congr 1
  funext o
  cases o <;> rfl

/-- `operator=` on another app, and so the copy constructor, never fails a `CHECK` on an app that
is well-formed. -/
theorem assign_eq {h : Heap Prob} {dst src : Nat} (hne : dst ≠ src)
    (hwf : (h src).WellFormed src) :
    assign h dst src = some (Function.update h dst ((h src).copied dst)) := by
  obtain ⟨app, happ⟩ : ∃ app : App Prob, app = ⟨(h src).views.mapIdx fun i view =>
    view.rebuilt.placed i, (h src).seqIdToPos, (h src).resizable⟩ := ⟨_, rfl⟩
  have hfold : (h src).views.foldl (fun app view => app.addView view.rebuilt)
      ⟨[], (h src).seqIdToPos, (h src).resizable⟩ = app := by
    rw [← List.foldl_map (f := View.rebuilt) (g := App.addView), foldl_addView, happ]
    simp [List.mapIdx_eq_zipIdx_map, List.zipIdx_map]
  have hassign : assign h dst src = copyAttributes (Function.update h dst app) dst (h src) := by
    simp [assign, Function.update_of_ne hne.symm, hfold]
  have hsame : Function.update h dst app src = h src := Function.update_of_ne hne.symm _ _
  have hids : (Function.update h dst app dst).views.map (·.id) =
      (Function.update h dst app src).views.map (·.id) := by
    rw [hsame, Function.update_self, happ]
    apply List.ext_getElem (by simp)
    intro i _ _
    simp [View.placed, View.rebuilt, View.new]
  have hviews : (app.views.zip (h src).views).mapM (fun (view, other) =>
      copyView (Function.update h dst app) dst view other) = some ((h src).copied dst).views := by
    rw [mapM_eq_some_iff]
    apply List.ext_getElem (by simp [App.copied, happ])
    intro i hi _
    have hi : i < (h src).views.length := by
      rw [List.length_map, List.length_zip] at hi
      omega
    have hother : (Function.update h dst app src).views[i]? = some (h src).views[i] := by
      rw [hsame, List.getElem?_eq_getElem hi]
    have hcopy := copyView_eq hids (hsame.symm ▸ hwf) ((h src).views[i].rebuilt.placed i) hother
      fun _ => rfl
    have happ_i (hlt : i < app.views.length) :
        app.views[i] = (h src).views[i].rebuilt.placed i := by
      simp [happ]
    simp only [List.getElem_map, List.getElem_zip, happ_i, hcopy, App.copied, List.getElem_mapIdx]
    rfl
  rw [hassign, copyAttributes, Function.update_self, hviews, happ]
  simp [App.copied]

theorem copyConstruct_eq {h : Heap Prob} {dst src : Nat} (hne : dst ≠ src)
    (hsrc : (h src).WellFormed src) :
    copyConstruct h dst src = some (Function.update h dst ((h src).copied dst)) := by
  have hsame : Function.update h dst {} src = h src := Function.update_of_ne hne.symm _ _
  rw [copyConstruct, assign_eq hne (by rwa [hsame]), hsame, Function.update_idem]

/-- An app that is assigned to itself is empty before it is read. -/
theorem assign_self (h : Heap Prob) (a : Nat) :
    assign h a a = some (Function.update h a { h a with views := [] }) := by
  simp [assign, copyAttributes]

end Spec

/-! ## The invariant -/

theorem App.wellFormed_of_bare {app : App Prob} {a : Nat}
    (hdistinct : (app.views.map (·.id)).Nodup)
    (hbare : ∀ view ∈ app.views, ∀ o, view.attributes o = none) : app.WellFormed a where
  distinct := hdistinct
  attributes := by
    intro i view hview o attr hattr
    rw [hbare view (List.mem_of_getElem? hview) o] at hattr
    cases hattr

theorem wellFormed_construct {views : List (View Prob)} {seqIdToPos : List Int}
    {resizable : List Bool} {a : Nat} (hdistinct : (views.map (·.id)).Nodup)
    (hbare : ∀ view ∈ views, ∀ o, view.attributes o = none) :
    (views.foldl App.addView ⟨[], seqIdToPos, resizable⟩).WellFormed a := by
  rw [foldl_addView]
  apply App.wellFormed_of_bare
  · have : (views.mapIdx fun i view => view.placed i).map (·.id) = views.map (·.id) := by
      apply List.ext_getElem (by simp)
      intro i _ _
      simp [View.placed]
    rw [← this] at hdistinct
    simpa using hdistinct
  · intro view hview o
    simp only [List.nil_append, List.mem_mapIdx] at hview
    obtain ⟨i, hi, rfl⟩ := hview
    exact hbare _ (List.getElem_mem hi) o

theorem wellFormed_applyAttribute {app : App Prob} {p : ViewPtr} {o : Orientation}
    {attr : Attribute Prob} (hwf : app.WellFormed p.app)
    (hproper : attr.Proper p.app p.index app.views.length o) :
    (app.applyAttribute p.index o attr).WellFormed p.app where
  distinct := by
    have : (app.applyAttribute p.index o attr).views.map (·.id) = app.views.map (·.id) := by
      apply List.ext_getElem (by simp [App.applyAttribute])
      intro i _ _
      simp only [App.applyAttribute, List.getElem_map, List.getElem_modify]
      split <;> rfl
    rw [this]
    exact hwf.distinct
  attributes := by
    intro i view hview o' attr' hattr'
    simp only [App.applyAttribute, List.length_modify, List.getElem?_modify,
      Option.map_eq_map, Option.map_eq_some_iff] at hview ⊢
    obtain ⟨old, hold, rfl⟩ := hview
    by_cases hi : p.index = i
    · subst hi
      simp only [↓reduceIte] at hattr'
      by_cases ho : o' = o
      · subst ho
        rw [Function.update_self] at hattr'
        exact Option.some.inj hattr' ▸ hproper
      · rw [Function.update_of_ne ho] at hattr'
        exact hwf.attributes _ _ hold o' attr' hattr'
    · simp only [hi, ↓reduceIte] at hattr'
      exact hwf.attributes _ _ hold o' attr' hattr'

theorem Attribute.Proper.moved {attr : Attribute Prob} {a b i n : Nat} {o : Orientation}
    (h : attr.Proper b i n o) : (attr.moved a).Proper a i n o where
  own := by simp [Attribute.moved, ViewPtr.moved, h.own]
  orientation := h.orientation
  primary := ⟨rfl, h.primary.2⟩
  secondary := by
    intro p hp
    obtain ⟨q, hq, rfl⟩ := Option.map_eq_some_iff.mp hp
    exact ⟨rfl, (h.secondary q hq).2⟩
  checked := by
    have := h.checked
    rwa [← Option.isSome_map (f := (·.moved a))] at this

theorem App.WellFormed.copied {app : App Prob} {a b : Nat} (hwf : app.WellFormed b) :
    (app.copied a).WellFormed a where
  distinct := by
    have : (app.copied a).views.map (·.id) = app.views.map (·.id) := by
      apply List.ext_getElem (by simp [App.copied])
      intro i _ _
      simp [App.copied, View.copied, View.rebuilt, View.new]
    rw [this]
    exact hwf.distinct
  attributes := by
    intro i view hview o attr hattr
    simp only [App.copied, List.getElem?_mapIdx, Option.map_eq_some_iff, List.length_mapIdx]
      at hview ⊢
    obtain ⟨old, hold, rfl⟩ := hview
    obtain ⟨attr, hold_attr, rfl⟩ := Option.map_eq_some_iff.mp hattr
    exact (hwf.attributes i old hold o attr hold_attr).moved

theorem Reachable.wellFormed [Zero Prob] {h : Heap Prob} (hreach : Reachable h) (a : Nat) :
    (h a).WellFormed a := by
  have hupdate {h : Heap Prob} {b : Nat} {app : App Prob} (hold : ∀ a, (h a).WellFormed a)
      (hnew : app.WellFormed b) (a : Nat) : (Function.update h b app a).WellFormed a := by
    by_cases ha : a = b
    · subst ha
      rwa [Function.update_self]
    · rw [Function.update_of_ne ha]
      exact hold a
  induction hreach generalizing a with
  | start => exact App.wellFormed_of_bare (by simp) (by simp)
  | construct b views _ _ hdistinct hbare _ ih =>
    exact hupdate ih (wellFormed_construct hdistinct hbare) a
  | applyAttribute p o attr hproper _ ih =>
    exact hupdate ih (wellFormed_applyAttribute (ih p.app) hproper) a
  | copyConstruct dst src hne hcopy _ ih =>
    rw [copyConstruct_eq hne (ih src)] at hcopy
    exact Option.some.inj hcopy ▸ hupdate ih (ih src).copied a
  | assign dst src hcopy _ ih =>
    by_cases hne : dst = src
    · subst hne
      rw [assign_self] at hcopy
      exact Option.some.inj hcopy ▸
        hupdate ih (App.wellFormed_of_bare (by simp) (by simp)) a
    · rw [assign_eq hne (ih src)] at hcopy
      exact Option.some.inj hcopy ▸ hupdate ih (ih src).copied a

/-! ## What a faithful copy is -/

/-- In the copy the pointer names the view with the same id. -/
def SamePtr (h h' : Heap Prob) (dst : Nat) (p p' : ViewPtr) : Prop :=
  p'.app = dst ∧ ∃ view view', h.view? p = some view ∧ h'.view? p' = some view' ∧
    view'.id = view.id

structure SameAttribute (h h' : Heap Prob) (dst : Nat) (attr attr' : Attribute Prob) : Prop where
  type : attr'.type = attr.type
  viewSize : attr'.viewSize = attr.viewSize
  valuePrimary : attr'.valuePrimary = attr.valuePrimary
  valueSecondary : attr'.valueSecondary = attr.valueSecondary
  bias : attr'.bias = attr.bias
  prob : attr'.prob = attr.prob
  src : SamePtr h h' dst attr.src attr'.src
  primary : SamePtr h h' dst attr.tgtPrimary attr'.tgtPrimary
  secondary : Option.Rel (SamePtr h h' dst) attr.tgtSecondary attr'.tgtSecondary

structure SameView (h h' : Heap Prob) (dst : Nat) (view view' : View Prob) : Prop where
  id : view'.id = view.id
  xleft : view'.xleft = view.xleft
  xright : view'.xright = view.xright
  ytop : view'.ytop = view.ytop
  ybottom : view'.ybottom = view.ybottom
  padding : view'.padding = view.padding
  idString : view'.idString = view.idString
  viewSize : view'.viewSize = view.viewSize
  attributes : ∀ o, Option.Rel (SameAttribute h h' dst) (view.attributes o) (view'.attributes o)

/-- The app at `dst` after the copy is the app at `src` before it. -/
structure Faithful (h h' : Heap Prob) (dst src : Nat) : Prop where
  length : (h' dst).views.length = (h src).views.length
  views : ∀ (i : Nat) (view view' : View Prob), (h src).views[i]? = some view →
    (h' dst).views[i]? = some view' → SameView h h' dst view view'
  properties : ∀ (i : Nat) (view view' : View Prob), (h src).views[i]? = some view →
    (h' dst).views[i]? = some view' → ∀ (type : OutputType) (order order' : List Orientation),
      IsOrder order → IsOrder order' →
        view'.toProperties h' type order' = view.toProperties h type order
  json : ∀ (type : OutputType) (order order' : Nat → List Orientation),
    (∀ i, IsOrder (order i)) → (∀ i, IsOrder (order' i)) →
      (h' dst).toJson h' type order' = (h src).toJson h type order

/-- A view that has nothing of what the copies leave behind. -/
structure View.Plain (view : View Prob) : Prop where
  padding : view.padding = {}
  idString : view.idString = defaultIdString view.id
  viewSize : view.viewSize = fun _ => none

def App.Plain (app : App Prob) : Prop := ∀ view ∈ app.views, view.Plain

section Faithful
variable {h : Heap Prob} {dst src : Nat}

theorem view?_copied (h : Heap Prob) (dst : Nat) {p : ViewPtr} (hp : p.app = src) :
    Heap.view? (Function.update h dst ((h src).copied dst)) (p.moved dst) =
      (h.view? p).map (View.copied dst p.index) := by
  simp [Heap.view?, ViewPtr.moved, hp, App.copied]

theorem alignToProperties_copied {view : View Prob} (hplain : view.Plain) (i : Nat)
    (type : ConstraintType) (primary secondary : Int) :
    alignToProperties type primary secondary (view.copied dst i) =
      alignToProperties type primary secondary view := by
  have hid : (view.copied dst i).idString = view.idString := hplain.idString.symm
  rw [alignToProperties, hid]
  rfl

theorem halfToProperties_copied {view : View Prob} (hplain : view.Plain) (i : Nat)
    (type : ConstraintType) (value : Int) :
    halfToProperties type value (view.copied dst i) = halfToProperties type value view := by
  simp only [halfToProperties, alignToProperties_copied hplain]

theorem toProperties_moved (hplain : (h src).Plain) {attr : Attribute Prob} {i n : Nat}
    {o : Orientation} (hproper : attr.Proper src i n o) :
    (attr.moved dst).toProperties (Function.update h dst ((h src).copied dst)) =
      attr.toProperties h := by
  have hmem {p : ViewPtr} {view : View Prob} (hp : p.app = src) (hview : h.view? p = some view) :
      view.Plain := by
    rw [Heap.view?, hp] at hview
    exact hplain view (List.mem_of_getElem? hview)
  have hprimary := view?_copied h dst hproper.primary.1
  unfold Attribute.toProperties
  by_cases hc : attr.type.isCenterAnchor = true
  · rw [if_pos hc, if_pos (show (attr.moved dst).type.isCenterAnchor = true from hc)]
    unfold Attribute.centerToProperties
    cases hs : attr.tgtSecondary with
    | none => simp [Attribute.moved, hs]
    | some q =>
      have hsecondary := view?_copied h dst (hproper.secondary q hs).1
      simp only [Attribute.moved, hs, hprimary, Option.map_some, Option.bind_eq_bind,
        Option.bind_some, hsecondary]
      cases hv : h.view? attr.tgtPrimary with
      | none => simp
      | some v =>
        cases hv' : h.view? q with
        | none => simp
        | some v' =>
          simp [halfToProperties_copied (hmem hproper.primary.1 hv),
            halfToProperties_copied (hmem (hproper.secondary q hs).1 hv')]
  · rw [if_neg hc, if_neg (show ¬ (attr.moved dst).type.isCenterAnchor = true from hc)]
    simp only [Attribute.moved, hprimary]
    cases hv : h.view? attr.tgtPrimary with
    | none => simp
    | some v => simp [alignToProperties_copied (hmem hproper.primary.1 hv)]

theorem visit_copied (order : List Orientation) (view : View Prob) (i : Nat) :
    (view.copied dst i).visit order = (view.visit order).map fun e => (e.1, e.2.moved dst) := by
  rw [View.visit, View.visit, List.map_filterMap]
  apply List.filterMap_congr
  intro o _
  simp only [View.copied]
  cases view.attributes o <;> rfl

theorem sizesToProperties_copied (order : List Orientation) (view : View Prob) (i : Nat) :
    (view.copied dst i).sizesToProperties order = view.sizesToProperties order := by
  have hroot : (view.copied dst i).isContentFrame = view.isContentFrame := rfl
  have hsize : (view.copied dst i).size = view.size := by
    funext o
    cases o <;> rfl
  rw [View.sizesToProperties, hroot, hsize, visit_copied, List.length_map, List.map_map]
  rfl

theorem assigned_copied (hplain : (h src).Plain) (hwf : (h src).WellFormed src) {i : Nat}
    {view : View Prob} (hview : (h src).views[i]? = some view) (order : List Orientation) :
    (view.copied dst i).assigned (Function.update h dst ((h src).copied dst)) order =
      view.assigned h order := by
  have hp := hplain view (List.mem_of_getElem? hview)
  have hid : (view.copied dst i).idString = view.idString := hp.idString.symm
  have hpadding : (view.copied dst i).padding = view.padding := hp.padding.symm
  have hattributes : (view.visit order).mapM (fun e => (e.2.moved dst).toProperties
      (Function.update h dst ((h src).copied dst))) =
        (view.visit order).mapM fun e => e.2.toProperties h := by
    apply mapM_congr
    rintro ⟨o, attr⟩ he
    obtain ⟨o', _, he⟩ := List.mem_filterMap.mp he
    obtain ⟨attr', hattr, he⟩ := Option.map_eq_some_iff.mp he
    cases he
    exact toProperties_moved hplain (hwf.attributes i view hview _ _ hattr)
  rw [View.assigned, View.assigned, sizesToProperties_copied, visit_copied, List.mapM_map, hid,
    hpadding]
  simp only [Function.comp_def, hattributes]

theorem App.WellFormed.oriented {app : App Prob} {a : Nat} (hwf : app.WellFormed a) {i : Nat}
    {view : View Prob} (hview : app.views[i]? = some view) : view.Oriented :=
  fun o attr hattr => (hwf.attributes i view hview o attr hattr).orientation

theorem toProperties_copied (hplain : (h src).Plain) (hwf : (h src).WellFormed src) {i : Nat}
    {view : View Prob} (hview : (h src).views[i]? = some view) (type : OutputType)
    {order order' : List Orientation} (horder : IsOrder order) (horder' : IsOrder order') :
    (view.copied dst i).toProperties (Function.update h dst ((h src).copied dst)) type order' =
      view.toProperties h type order := by
  rw [View.toProperties, assigned_copied hplain hwf hview,
    ← View.toProperties_perm (hwf.oriented hview) (horder'.trans horder.symm)
      horder'.nodup,
    View.toProperties]

theorem toJson_copied (hplain : (h src).Plain) (hwf : (h src).WellFormed src) (type : OutputType)
    {order order' : Nat → List Orientation} (horder : ∀ i, IsOrder (order i))
    (horder' : ∀ i, IsOrder (order' i)) :
    ((h src).copied dst).toJson (Function.update h dst ((h src).copied dst)) type order' =
      (h src).toJson h type order := by
  have hzip : ((h src).copied dst).views.zipIdx =
      (h src).views.zipIdx.map fun e => (e.1.copied dst e.2, e.2) := by
    apply List.ext_getElem (by simp [App.copied])
    intro i _ _
    simp [App.copied]
  have hlayout : ((h src).views.zipIdx.mapM fun e => (e.1.copied dst e.2).toProperties
      (Function.update h dst ((h src).copied dst)) type (order' e.2)) =
        (h src).views.zipIdx.mapM fun e => e.1.toProperties h type (order e.2) := by
    apply mapM_congr
    rintro ⟨view, i⟩ he
    exact toProperties_copied hplain hwf (List.mem_zipIdx_iff_getElem?.mp he) type (horder i)
      (horder' i)
  have hroot : ((h src).copied dst).views.head? =
      (h src).views.head?.map (View.copied dst 0) := by
    cases hv : (h src).views <;> simp [App.copied, hv]
  rw [App.toJson, App.toJson, hzip, List.mapM_map, hroot]
  simp only [Function.comp_def, hlayout]
  cases (h src).views.head? <;> rfl

theorem samePtr_moved {p : ViewPtr} (hp : p.app = src)
    (hlt : p.index < (h src).views.length) :
    SamePtr h (Function.update h dst ((h src).copied dst)) dst p (p.moved dst) := by
  have hview : h.view? p = some (h src).views[p.index] := by
    rw [Heap.view?, hp, List.getElem?_eq_getElem hlt]
  have hcopy := view?_copied h dst hp
  rw [hview, Option.map_some] at hcopy
  exact ⟨rfl, _, _, hview, hcopy, rfl⟩

theorem sameAttribute_moved {attr : Attribute Prob} {i : Nat}
    (hi : i < (h src).views.length) {o : Orientation}
    (hproper : attr.Proper src i (h src).views.length o) :
    SameAttribute h (Function.update h dst ((h src).copied dst)) dst attr (attr.moved dst) where
  type := rfl
  viewSize := rfl
  valuePrimary := rfl
  valueSecondary := rfl
  bias := rfl
  prob := rfl
  src := samePtr_moved (by rw [hproper.own]) (by rw [hproper.own]; exact hi)
  primary := samePtr_moved hproper.primary.1 hproper.primary.2
  secondary := by
    cases hs : attr.tgtSecondary with
    | none => simp [Attribute.moved, hs]
    | some q =>
      obtain ⟨hq, hlt⟩ := hproper.secondary q hs
      simpa [Attribute.moved, hs] using Option.Rel.some (samePtr_moved hq hlt)

theorem faithful_copied (hplain : (h src).Plain) (hwf : (h src).WellFormed src) :
    Faithful h (Function.update h dst ((h src).copied dst)) dst src := by
  have hget {i : Nat} {view view' : View Prob} (hview : (h src).views[i]? = some view)
      (hview' : (Function.update h dst ((h src).copied dst) dst).views[i]? = some view') :
      view' = view.copied dst i := by
    rw [Function.update_self, App.copied, List.getElem?_mapIdx, hview] at hview'
    exact (Option.some.inj hview').symm
  refine ⟨?_, fun i view view' hview hview' => ?_,
    fun i view view' hview hview' type _ _ ho ho' => ?_, fun type _ _ ho ho' => ?_⟩
  · rw [Function.update_self, App.copied, List.length_mapIdx]
  · obtain rfl := hget hview hview'
    have hp := hplain view (List.mem_of_getElem? hview)
    have hi : i < (h src).views.length := (List.getElem?_eq_some_iff.mp hview).1
    refine ⟨rfl, rfl, rfl, rfl, rfl, hp.padding.symm, hp.idString.symm, hp.viewSize.symm, ?_⟩
    intro o
    cases hattr : view.attributes o with
    | none => simp [View.copied, hattr]
    | some attr =>
      simpa [View.copied, hattr] using
        Option.Rel.some (sameAttribute_moved hi (hwf.attributes i view hview o attr hattr))
  · obtain rfl := hget hview hview'
    exact toProperties_copied hplain hwf hview type ho ho'
  · rw [Function.update_self]
    exact toJson_copied hplain hwf type ho ho'

/-- A copy that shows what the original shows had nothing to leave behind. -/
theorem plain_of_faithful
    (hf : Faithful h (Function.update h dst ((h src).copied dst)) dst src) : (h src).Plain := by
  intro view hview
  obtain ⟨i, hview⟩ := List.mem_iff_getElem?.mp hview
  have hcopy : (Function.update h dst ((h src).copied dst) dst).views[i]? =
      some (view.copied dst i) := by
    rw [Function.update_self, App.copied, List.getElem?_mapIdx, hview, Option.map_some]
  have hsame := hf.views i view _ hview hcopy
  exact ⟨hsame.padding.symm, hsame.idString.symm, hsame.viewSize.symm⟩

end Faithful

/-- In every state that constructions, attribute assignments and copies lead to, the two copies
are faithful exactly on apps with nothing to leave behind; an app that is assigned to itself has
to be empty. -/
theorem copies_faithful_iff [Zero Prob] {h : Heap Prob} (hreach : Reachable h) (dst src : Nat) :
    (dst ≠ src →
      ((∃ h', copyConstruct h dst src = some h' ∧ Faithful h h' dst src) ↔ (h src).Plain)) ∧
    ((∃ h', assign h dst src = some h' ∧ Faithful h h' dst src) ↔
      (h src).Plain ∧ (dst = src → (h src).views = [])) := by
  have hwf := hreach.wellFormed src
  have hiff : Faithful h (Function.update h dst ((h src).copied dst)) dst src ↔ (h src).Plain :=
    ⟨plain_of_faithful, fun hplain => faithful_copied hplain hwf⟩
  refine ⟨fun hne => ?_, ?_⟩
  · rw [copyConstruct_eq hne hwf]
    simpa using hiff
  · by_cases hne : dst = src
    · subst hne
      rw [assign_self]
      constructor
      · rintro ⟨h', heq, hf⟩
        obtain rfl := Option.some.inj heq
        have hempty : (h dst).views = [] := by
          have := hf.length
          rw [Function.update_self] at this
          exact List.eq_nil_of_length_eq_zero this.symm
        exact ⟨by simp [App.Plain, hempty], fun _ => hempty⟩
      · rintro ⟨-, hempty⟩
        refine ⟨_, rfl, ?_⟩
        have hid : Function.update h dst { h dst with views := [] } = h := by
          rw [← hempty rfl]
          exact Function.update_eq_self dst h
        rw [hid]
        exact ⟨rfl, by simp [hempty rfl], by simp [hempty rfl],
          by simp [App.toJson, hempty rfl]⟩
    · rw [assign_eq hne hwf]
      simp [hne, hiff]

/-! ## An app with a padding -/

/-- A content frame with a padding on the left, as `InitializeAttributes` leaves it. -/
def paddedRoot : View ℚ :=
  { View.new 0 0 720 1280 "android.support.constraint.ConstraintLayout" 0 with
    padding := { paddingLeft := 16 } }

def paddedHeap : Heap ℚ :=
  Function.update (fun _ => {}) 0 ([paddedRoot].foldl App.addView ⟨[], [0], [true, true]⟩)

theorem paddedHeap_reachable : Reachable paddedHeap :=
  .construct 0 [paddedRoot] [0] [true, true] (by decide) (by simp [paddedRoot, View.new]) .start

/-- A padding that is written for the original is not written for its copy. -/
theorem copy_loses_padding :
    Reachable paddedHeap ∧
      (∃ h', copyConstruct paddedHeap 1 0 = some h' ∧
        ((paddedHeap 0).views.map fun view => (view.toProperties paddedHeap .outputXml
          [.horizontal, .vertical]).map (· "android:paddingLeft")) = [some (some "16px")] ∧
        ((h' 1).views.map fun view => (view.toProperties h' .outputXml
          [.horizontal, .vertical]).map (· "android:paddingLeft")) = [some none]) ∧
      ¬ ∀ dst src : Nat, dst ≠ src → ∃ h', copyConstruct paddedHeap dst src = some h' ∧
        Faithful paddedHeap h' dst src := by
  have hwf := paddedHeap_reachable.wellFormed 0
  refine ⟨paddedHeap_reachable, ⟨_, copyConstruct_eq (by decide) hwf, ?_, ?_⟩, fun h => ?_⟩
  · decide +kernel
  · decide +kernel
  · obtain ⟨h', hcopy, hf⟩ := h 1 0 (by decide)
    rw [copyConstruct_eq (by decide) hwf] at hcopy
    have hplain := plain_of_faithful (Option.some.inj hcopy ▸ hf)
    have := (hplain (paddedRoot.placed 0) (by simp [paddedHeap, App.addView])).padding
    exact absurd this (by decide)

/-- On the padded app the theorem says that no copy is faithful. -/
theorem copies_faithful_iff_padded :
    (1 ≠ 0 → ((∃ h', copyConstruct paddedHeap 1 0 = some h' ∧ Faithful paddedHeap h' 1 0) ↔
      (paddedHeap 0).Plain)) ∧
    ((∃ h', assign paddedHeap 1 0 = some h' ∧ Faithful paddedHeap h' 1 0) ↔
      (paddedHeap 0).Plain ∧ (1 = 0 → (paddedHeap 0).views = [])) :=
  copies_faithful_iff paddedHeap_reachable 1 0

end InferUI.Document
