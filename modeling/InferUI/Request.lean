import InferUI.Json
import InferUI.Layout
import InferUI.ParseInt

/-!
# Reading and writing requests

`JsonAppSerializer` of `syn_helper.cpp`. A request lists screens, each with the resolution of
its device and the rectangles of its views. The reader leaves out a view that covers its whole
screen and puts a root of its own in front; with three screens it takes the middle one as the
reference. The name and the id string `"frog"` that it gives to each view are not used here.
-/

namespace InferUI
variable {Prob : Type}

structure Device where
  width : Int
  height : Int
  deriving DecidableEq, Repr

/-- The coordinates of a view, in the order of the file. -/
structure Rect where
  left : Int
  top : Int
  right : Int
  bottom : Int
  deriving DecidableEq, Repr

def View.rect (view : View Prob) : Rect := ⟨view.xleft, view.ytop, view.xright, view.ybottom⟩

def App.rects (app : App Prob) : List Rect := app.views.map View.rect

/-- The rectangle of the whole screen. -/
def Device.rect (device : Device) : Rect := ⟨0, 0, device.width, device.height⟩

/-- Coordinates are of type `int`. -/
def Rect.Ints (rect : Rect) : Prop :=
  IsInt rect.left ∧ IsInt rect.top ∧ IsInt rect.right ∧ IsInt rect.bottom

instance (rect : Rect) : Decidable rect.Ints := inferInstanceAs (Decidable (_ ∧ _))

namespace Request

section Write

def deviceToJson (device : Device) : Json := .array [.int device.width, .int device.height]

def rectToJson (rect : Rect) : Json :=
  .array [.int rect.left, .int rect.top, .int rect.right, .int rect.bottom]

def viewToJson (view : View Prob) : Json := rectToJson view.rect

def appToJson (app : App Prob) : Json :=
  .array ((app.views.filter fun view => !view.isContentFrame).map viewToJson)

def screenToJson (app : App Prob) (device : Device) : Json :=
  .object [("resolution", deviceToJson device), ("views", appToJson app)]

def toJson (app : App Prob) (apps : List (App Prob)) (refDevice : Device)
    (devices : List Device) : Option Json :=
  if devices.length = apps.length then
    some (.object [("screens", .array (screenToJson app refDevice ::
      List.zipWith screenToJson apps devices))])
  else none

end Write

section Read

def readDevice (screen : Json) : Option Device := do
  let resolution ← screen.get "resolution"
  return ⟨← (← resolution.index 0).asInt, ← (← resolution.index 1).asInt⟩

def readRect (view : Json) : Option Rect := do
  return ⟨← (← view.index 0).asInt, ← (← view.index 1).asInt, ← (← view.index 2).asInt,
    ← (← view.index 3).asInt⟩

/-- The rectangles that a screen lists. -/
def readViews (screen : Json) : Option (List Rect) := do
  (← screen.get "views").elements.mapM readRect

/-- The listed views that the loop of `CuJsonToAppRaw` does not skip, with their places in
the list. -/
def keptViews (device : Device) (rects : List Rect) : List (Rect × Nat) :=
  rects.zipIdx.filter fun entry => decide (entry.1 ≠ device.rect)

def makeView (rect : Rect) (id : Nat) : View Prob where
  xleft := rect.left
  ytop := rect.top
  xright := rect.right
  ybottom := rect.bottom
  id := id

/-- The app that `CuJsonToAppRaw` builds: a root for the resolution, then the kept views,
numbered from 1. -/
def makeApp (device : Device) (rects : List Rect) : App Prob :=
  .ofViews (makeView device.rect 0 ::
    (keptViews device rects).mapIdx fun i entry => makeView entry.1 (i + 1))

def readScreen (screen : Json) : Option (Device × List Rect) := do
  return (← readDevice screen, ← readViews screen)

def cuJsonToAppRaw (screen : Json) : Option (App Prob) :=
  (readScreen screen).map fun read => makeApp read.1 read.2

/-- The out-parameters of `JsonToApps`. -/
structure Loaded (Prob : Type) where
  app : App Prob
  apps : List (App Prob)
  refDevice : Device
  devices : List Device

/-- What the callers pass in. -/
def Loaded.empty : Loaded Prob := ⟨.ofViews [], [], ⟨0, 0⟩, []⟩

/-- Which screen is the reference, and the others in the order in which they are read. Of
three screens it is the middle one, and they have to be in the order of their widths. -/
def arrange (screens : Json) : Option (Option (Json × List Json)) :=
  if screens.size = 3 then do
    let small ← screens.index 0
    let middle ← screens.index 1
    let big ← screens.index 2
    let widthSmall := (← readDevice small).width
    let widthMiddle := (← readDevice middle).width
    let widthBig := (← readDevice big).width
    if widthSmall < widthMiddle ∧ widthMiddle < widthBig then
      return some (middle, [small, big])
    else none
  else
    match screens.elements with
    | [] => some none
    | first :: others => some (some (first, others))

def jsonToApps (request : Json) (out : Loaded Prob) : Option (Int × Loaded Prob) := do
  let id ← request.getD "id" (.string "-1")
  let idx ← parseInt32 (← id.asString)
  match ← arrange (← request.get "screens") with
  | none => return (idx, out)
  | some (ref, others) =>
    return (idx, {
      app := ← cuJsonToAppRaw ref
      apps := out.apps ++ (← others.mapM cuJsonToAppRaw)
      refDevice := ← readDevice ref
      devices := out.devices ++ (← others.mapM readDevice) })

end Read

section Origins
variable {device : Device} {rects : List Rect}

/-- The entry of the list of a screen that the view at position `k` of its app comes from. -/
def origin (device : Device) (rects : List Rect) (k : Nat) : Option Nat :=
  if k = 0 then none else (keptViews device rects)[k - 1]?.map (·.2)

/-- Whether the reader skips entry `j`. -/
def skips (device : Device) (rects : List Rect) (j : Nat) : Bool :=
  decide (rects[j]? = some device.rect)

theorem length_makeApp (device : Device) (rects : List Rect) :
    (makeApp device rects : App Prob).views.length = (keptViews device rects).length + 1 := by
  simp [makeApp, App.ofViews]

theorem rects_makeApp (device : Device) (rects : List Rect) :
    (makeApp device rects : App Prob).rects =
      device.rect :: (keptViews device rects).map (·.1) := by
  unfold App.rects makeApp App.ofViews
  apply List.ext_getElem
  · simp
  · intro i h h'
    cases i with
    | zero => simp [View.rect, makeView, Device.rect]
    | succ i => simp [View.rect, makeView]

/-- The origins of the views, in order: all entries that are not skipped. -/
theorem origins_eq (device : Device) (rects : List Rect) :
    (keptViews device rects).map (·.2) =
      (List.range rects.length).filter fun j => !skips device rects j := by
  have hskip : keptViews device rects =
      rects.zipIdx.filter ((fun j => !skips device rects j) ∘ (·.2)) := by
    apply List.filter_congr
    intro entry hentry
    simp [skips, List.mem_zipIdx_iff_getElem?.mp hentry]
  rw [hskip, ← List.filter_map, List.zipIdx_map_snd, List.range_eq_range']

theorem origin_eq_iff_origins {device' : Device} {rects' : List Rect} :
    (∀ k, origin device' rects' k = origin device rects k) ↔
      (keptViews device' rects').map (·.2) = (keptViews device rects).map (·.2) := by
  constructor
  · intro h
    apply List.ext_getElem?
    intro k
    simpa [origin] using h (k + 1)
  · intro h k
    have := congrArg (·[k - 1]?) h
    simp only [List.getElem?_map] at this
    rw [origin, origin, this]

/-- Two screens that list equally many views: the positions of their apps correspond exactly
when the reader skips the same entries. -/
theorem origin_eq_iff {device' : Device} {rects' : List Rect} {n : Nat}
    (hn : rects.length = n) (hn' : rects'.length = n) :
    (∀ k, origin device' rects' k = origin device rects k) ↔
      ∀ j < n, skips device' rects' j = skips device rects j := by
  rw [origin_eq_iff_origins, origins_eq, origins_eq, hn, hn']
  constructor
  · intro h j hj
    have := congrArg (j ∈ ·) h
    simp only [List.mem_filter, List.mem_range, hj, true_and, Bool.not_eq_true', eq_iff_iff] at this
    rw [Bool.eq_iff_iff, ← not_iff_not]
    simpa using this
  · intro h
    apply List.filter_congr
    intro j hj
    rw [h j (List.mem_range.mp hj)]

end Origins

section Screens

/-- How many views a screen lists. -/
def listed (screen : Json) : Option Nat := (readScreen screen).map (·.2.length)

def originIn (screen : Json) (k : Nat) : Option Nat :=
  (readScreen screen).bind fun read => origin read.1 read.2 k

/-- Entry `j` of the list of a screen covers the whole screen. -/
def fills (screen : Json) (j : Nat) : Bool :=
  (readScreen screen).any fun read => skips read.1 read.2 j

def screensOf (request : Json) : Json := (request.get "screens").getD .null

def screens (request : Json) : List Json := (screensOf request).elements

/-- Three screens can only be read from an array. -/
theorem elements_of_index {value a b c : Json} (hsize : value.size = 3)
    (ha : value.index 0 = some a) (hb : value.index 1 = some b) (hc : value.index 2 = some c) :
    value.elements = [a, b, c] := by
  cases value with
  | array list =>
    obtain ⟨x, y, z, rfl⟩ := List.length_eq_three.mp hsize
    obtain rfl := Option.some.inj ha
    obtain rfl := Option.some.inj hb
    obtain rfl := Option.some.inj hc
    rfl
  | null => cases hsize
  | bool | int | real | string | object => cases ha

theorem arrange_perm {value ref : Json} {others : List Json}
    (h : arrange value = some (some (ref, others))) : (ref :: others).Perm value.elements := by
  unfold arrange at h
  split at h
  · rename_i hsize
    simp only [Option.pure_def, Option.bind_eq_bind, Option.bind_eq_some_iff] at h
    obtain ⟨small, hsmall, middle, hmiddle, big, hbig, _, _, _, _, _, _, h⟩ := h
    split at h
    · simp only [Option.some.injEq, Prod.mk.injEq] at h
      obtain ⟨rfl, rfl⟩ := h
      rw [elements_of_index hsize hsmall hmiddle hbig]
      exact List.Perm.swap _ _ _
    · cases h
  · split at h
    · cases h
    · rename_i heq
      simp only [Option.some.injEq, Prod.mk.injEq] at h
      obtain ⟨rfl, rfl⟩ := h
      rw [heq]

/-- What a successful read returns, screen by screen. -/
theorem jsonToApps_spec {request : Json} {idx : Int} {loaded : Loaded Prob} {ref : Json}
    {others : List Json} (h : jsonToApps request .empty = some (idx, loaded))
    (harrange : arrange (screensOf request) = some (some (ref, others))) :
    cuJsonToAppRaw ref = some loaded.app ∧ others.mapM cuJsonToAppRaw = some loaded.apps ∧
      readDevice ref = some loaded.refDevice ∧ others.mapM readDevice = some loaded.devices := by
  unfold jsonToApps at h
  simp only [Option.pure_def, Option.bind_eq_bind, Option.bind_eq_some_iff] at h
  obtain ⟨_, _, _, _, _, _, value, hvalue, arranged, harranged, h⟩ := h
  rw [screensOf, hvalue, Option.getD_some, harranged, Option.some.injEq] at harrange
  subst harrange
  simp only [Option.bind_eq_some_iff, Option.some.injEq, Prod.mk.injEq] at h
  obtain ⟨app, happ, apps, happs, device, hdevice, devices, hdevices, _, rfl⟩ := h
  exact ⟨happ, happs, hdevice, hdevices⟩

/-- The app and the device apps have equally many views, and the views at each position come
from the same entry of the lists of their screens. -/
def Aligned (loaded : Loaded Prob) (ref : Json) (others : List Json) : Prop :=
  ∀ (i : Nat) (app : App Prob) (screen : Json),
    loaded.apps[i]? = some app → others[i]? = some screen →
      app.views.length = loaded.app.views.length ∧ ∀ k, originIn screen k = originIn ref k

/-- Views are aligned exactly when, for each entry of the lists, all screens or none has
there a view that covers it. -/
theorem views_aligned_iff (request : Json) (n : Nat) {idx : Int} {loaded : Loaded Prob}
    {ref : Json} {others : List Json} (h : jsonToApps request .empty = some (idx, loaded))
    (harrange : arrange (screensOf request) = some (some (ref, others)))
    (hsame : ∀ screen ∈ screens request, listed screen = some n) :
    Aligned loaded ref others ↔
      ∀ j < n, (∀ screen ∈ screens request, fills screen j = true) ∨
        ∀ screen ∈ screens request, fills screen j = false := by
  obtain ⟨happ, happs, _, _⟩ := jsonToApps_spec h harrange
  have hperm := arrange_perm harrange
  have hall (screen : Json) (hs : screen ∈ ref :: others) :
      ∃ read, readScreen screen = some read ∧ read.2.length = n := by
    obtain ⟨read, hread, hn⟩ := Option.map_eq_some_iff.mp (hsame screen (hperm.subset hs))
    exact ⟨read, hread, hn⟩
  obtain ⟨refRead, href, hrefn⟩ := hall ref List.mem_cons_self
  rw [cuJsonToAppRaw, href, Option.map_some, Option.some.injEq] at happ
  -- Alignment with the reference, one screen at a time.
  have one (screen : Json) (hs : screen ∈ others) (app : App Prob)
      (ha : cuJsonToAppRaw screen = some app) :
      (app.views.length = loaded.app.views.length ∧ ∀ k, originIn screen k = originIn ref k) ↔
        ∀ j < n, fills screen j = fills ref j := by
    obtain ⟨read, hread, hn⟩ := hall screen (List.mem_cons_of_mem _ hs)
    rw [cuJsonToAppRaw, hread, Option.map_some, Option.some.injEq] at ha
    subst ha
    simp only [originIn, fills, hread, href, Option.bind_some, Option.any_some]
    rw [← origin_eq_iff hrefn hn, and_iff_right_iff_imp, origin_eq_iff_origins]
    intro hk
    have := congrArg List.length hk
    rw [List.length_map, List.length_map] at this
    rw [← happ, length_makeApp, length_makeApp, this]
  rw [mapM_eq_some_iff] at happs
  have hindex (i : Nat) (screen : Json) (hs : others[i]? = some screen) :
      ∃ app, cuJsonToAppRaw screen = some app ∧ loaded.apps[i]? = some app := by
    have := congrArg (·[i]?) happs
    simp only [List.getElem?_map, hs, Option.map_some] at this
    obtain ⟨app, ha, he⟩ := Option.map_eq_some_iff.mp this.symm
    exact ⟨app, he.symm, ha⟩
  constructor
  · intro haligned j hj
    have heq (screen : Json) (hs : screen ∈ screens request) : fills screen j = fills ref j := by
      rcases List.mem_cons.mp (hperm.symm.subset hs) with rfl | hs
      · rfl
      · obtain ⟨i, hi⟩ := List.mem_iff_getElem?.mp hs
        obtain ⟨app, ha, happ⟩ := hindex i screen hi
        exact (one screen hs app ha).mp (haligned i app screen happ hi) j hj
    cases hf : fills ref j with
    | true => exact Or.inl fun screen hs => (heq screen hs).trans hf
    | false => exact Or.inr fun screen hs => (heq screen hs).trans hf
  · intro hfills i app screen happ hi
    obtain ⟨app', ha, happ'⟩ := hindex i screen hi
    obtain rfl : app = app' := Option.some.inj (happ.symm.trans happ')
    have hs := List.mem_of_getElem? hi
    refine (one screen hs app ha).mpr fun j hj => ?_
    have hmem := hperm.subset (List.mem_cons_of_mem ref hs)
    have hmem' := hperm.subset (List.mem_cons_self : ref ∈ ref :: others)
    rcases hfills j hj with ht | hf
    · rw [ht _ hmem, ht _ hmem']
    · rw [hf _ hmem, hf _ hmem']

section Samples

def sampleScreen (width height : Int) (views : List Rect) : Json :=
  .object [("resolution", deviceToJson ⟨width, height⟩), ("views", .array (views.map rectToJson))]

/-- Two screens with a view that covers the first of them. -/
def sampleRequest (second : Rect) : Json :=
  .object [("screens", .array [
    sampleScreen 100 200 [⟨0, 0, 100, 200⟩, ⟨10, 10, 20, 20⟩],
    sampleScreen 50 100 [second, ⟨5, 5, 10, 10⟩]])]

theorem views_aligned_iff_two_screens :
    ∃ loaded : Loaded Unit, jsonToApps (sampleRequest ⟨0, 0, 50, 100⟩) .empty = some (-1, loaded) ∧
      ∃ ref others,
        arrange (screensOf (sampleRequest ⟨0, 0, 50, 100⟩)) = some (some (ref, others)) ∧
        Aligned loaded ref others := by
  refine ⟨_, rfl, _, _, rfl, ?_⟩
  refine (views_aligned_iff (sampleRequest ⟨0, 0, 50, 100⟩) 2 rfl rfl (by decide)).mpr ?_
  decide

/-- A view that covers its screen on the first device and not on the second: it is lost on the
first one only. -/
theorem covering_view_shifts :
    ∃ loaded : Loaded Unit, jsonToApps (sampleRequest ⟨0, 0, 40, 100⟩) .empty = some (-1, loaded) ∧
      ∃ ref others,
        arrange (screensOf (sampleRequest ⟨0, 0, 40, 100⟩)) = some (some (ref, others)) ∧
        (∀ screen ∈ screens (sampleRequest ⟨0, 0, 40, 100⟩), listed screen = some 2) ∧
        ¬ Aligned loaded ref others := by
  refine ⟨_, rfl, _, _, rfl, by decide, fun h => ?_⟩
  have := (h 0 _ _ rfl rfl).1
  revert this
  decide

end Samples
end Screens

section RoundTrip

/-- The root is at the origin with the size of the device, no other view covers it, and the
coordinates are of the type that a view has for them. -/
structure Fits (app : App Prob) (device : Device) : Prop where
  rooted : app.Rooted
  root : app.rects.head? = some device.rect
  others : ∀ rect ∈ app.rects.tail, rect ≠ device.rect
  ints : ∀ rect ∈ app.rects, rect.Ints

/-- What is written can be read: the same devices in the same order, and apps with the same
coordinates. -/
def RoundTrips (app : App Prob) (apps : List (App Prob)) (refDevice : Device)
    (devices : List Device) : Prop :=
  ∃ request idx, ∃ loaded : Loaded Prob, toJson app apps refDevice devices = some request ∧
    jsonToApps request .empty = some (idx, loaded) ∧ loaded.refDevice = refDevice ∧
    loaded.devices = devices ∧ loaded.app.rects = app.rects ∧
    loaded.apps.map App.rects = apps.map App.rects

/-- Only the root is a content frame. -/
theorem filter_contentFrame {app : App Prob} (h : app.Rooted) :
    app.views.filter (fun view => !view.isContentFrame) = app.views.tail := by
  obtain ⟨root, views, hviews⟩ := List.exists_cons_of_length_pos h.nonempty
  have hroot : root.id = 0 := h.root_id root (by rw [hviews]; rfl)
  have hdistinct := h.distinct
  rw [hviews, List.map_cons, List.nodup_cons, hroot] at hdistinct
  rw [hviews, List.filter_cons_of_neg (by simp [View.isContentFrame, hroot]), List.tail_cons,
    List.filter_eq_self]
  intro view hv
  have : view.id ≠ 0 := fun he => hdistinct.1 (he ▸ List.mem_map_of_mem hv)
  simp [View.isContentFrame, this]

theorem readRect_rectToJson {rect : Rect} (h : rect.Ints) :
    readRect (rectToJson rect) = some rect := by
  obtain ⟨hleft, htop, hright, hbottom⟩ := h
  simp [readRect, rectToJson, Json.asInt_int hleft, Json.asInt_int htop, Json.asInt_int hright,
    Json.asInt_int hbottom]

theorem readDevice_screenToJson {app : App Prob} {device : Device} (h : Fits app device) :
    readDevice (screenToJson app device) = some device := by
  obtain ⟨_, _, hright, hbottom⟩ := h.ints device.rect (List.mem_of_mem_head? h.root)
  have hresolution : (screenToJson app device).get "resolution" = some (deviceToJson device) := rfl
  rw [readDevice, hresolution]
  simp only [deviceToJson, Option.bind_eq_bind, Option.bind_some, Json.index_array]
  change ((Json.int device.width).asInt.bind fun width =>
    (Json.int device.height).asInt.bind fun height => some ⟨width, height⟩) = some device
  have hwidth : (Json.int device.width).asInt = some device.width := Json.asInt_int hright
  have hheight : (Json.int device.height).asInt = some device.height := Json.asInt_int hbottom
  rw [hwidth, hheight, Option.bind_some, Option.bind_some]

theorem readScreen_screenToJson {app : App Prob} {device : Device} (h : Fits app device) :
    readScreen (screenToJson app device) = some (device, app.rects.tail) := by
  have hviews : (screenToJson app device).get "views" = some (appToJson app) := rfl
  have hread : (appToJson app).elements.mapM readRect = some app.rects.tail := by
    rw [mapM_eq_some_iff, appToJson, Json.elements_array, filter_contentFrame h.rooted, App.rects,
      List.map_map, ← List.map_tail, List.map_map]
    apply List.map_congr_left
    intro view hview
    exact readRect_rectToJson (h.ints _ (List.mem_map_of_mem (List.mem_of_mem_tail hview)))
  rw [readScreen, readDevice_screenToJson h, readViews, hviews]
  simp [hread]

/-- One screen is read as it was written. -/
theorem screen_roundtrip {app : App Prob} {device : Device} (h : Fits app device) :
    ∃ app' : App Prob, cuJsonToAppRaw (screenToJson app device) = some app' ∧
      app'.rects = app.rects := by
  rw [cuJsonToAppRaw, readScreen_screenToJson h]
  refine ⟨_, rfl, ?_⟩
  have hkept : (keptViews device app.rects.tail).map (·.1) = app.rects.tail := by
    rw [keptViews, List.filter_eq_self.mpr, List.zipIdx_map_fst]
    intro entry hentry
    exact decide_eq_true (h.others _ (List.fst_mem_of_mem_zipIdx hentry))
  rw [rects_makeApp, hkept]
  exact List.cons_head?_tail h.root

theorem arrange_of_ne {first : Json} {others : List Json} (h : others.length ≠ 2) :
    arrange (.array (first :: others)) = some (some (first, others)) := by
  have hsize : (Json.array (first :: others)).size ≠ 3 := fun he => h (Nat.succ.inj he)
  rw [arrange, if_neg hsize]
  rfl

theorem screens_roundtrip {apps : List (App Prob)} {devices : List Device}
    (hlength : devices.length = apps.length)
    (h : ∀ pair ∈ apps.zip devices, Fits pair.1 pair.2) :
    (∃ apps' : List (App Prob),
      (List.zipWith screenToJson apps devices).mapM cuJsonToAppRaw = some apps' ∧
        apps'.map App.rects = apps.map App.rects) ∧
      (List.zipWith screenToJson apps devices).mapM readDevice = some devices := by
  induction apps generalizing devices with
  | nil =>
    obtain rfl := List.length_eq_zero_iff.mp hlength
    exact ⟨⟨[], rfl, rfl⟩, rfl⟩
  | cons app apps ih =>
    cases devices with
    | nil => cases hlength
    | cons device devices =>
      obtain ⟨⟨apps', hread, hrects⟩, hdevices⟩ := ih (Nat.succ.inj hlength)
        fun pair hp => h pair (List.mem_cons_of_mem _ hp)
      obtain ⟨app', happ, hrect⟩ := screen_roundtrip (h (app, device) List.mem_cons_self)
      refine ⟨⟨app' :: apps', ?_, by simp [hrect, hrects]⟩, ?_⟩
      · simp [List.zipWith_cons_cons, happ, hread]
      · simp [List.zipWith_cons_cons, hdevices,
          readDevice_screenToJson (h (app, device) List.mem_cons_self)]

/-- The screens of a request that was written. -/
theorem screensOf_toJson {app : App Prob} {apps : List (App Prob)} {refDevice : Device}
    {devices : List Device} {request : Json}
    (h : toJson app apps refDevice devices = some request) :
    screensOf request =
      .array (screenToJson app refDevice :: List.zipWith screenToJson apps devices) := by
  unfold toJson at h
  split at h
  · rw [← Option.some.inj h]
    rfl
  · cases h

theorem arranges_of_jsonToApps {request : Json} {idx : Int} {out loaded : Loaded Prob}
    (h : jsonToApps request out = some (idx, loaded)) :
    ∃ arranged, arrange (screensOf request) = some arranged := by
  unfold jsonToApps at h
  simp only [Option.pure_def, Option.bind_eq_bind, Option.bind_eq_some_iff] at h
  obtain ⟨_, _, _, _, _, _, value, hvalue, arranged, harranged, _⟩ := h
  rw [screensOf, hvalue]
  exact ⟨arranged, harranged⟩

/-- The reader takes the second of three screens as the reference, and only when it is the
wider one. -/
theorem arrange_three {app₀ app₁ app₂ : App Prob} {device₀ device₁ device₂ : Device}
    {arranged : Option (Json × List Json)} (hfits₀ : Fits app₀ device₀)
    (hfits₁ : Fits app₁ device₁) (hfits₂ : Fits app₂ device₂)
    (h : arrange (.array [screenToJson app₀ device₀, screenToJson app₁ device₁,
      screenToJson app₂ device₂]) = some arranged) :
    arranged = some (screenToJson app₁ device₁,
      [screenToJson app₀ device₀, screenToJson app₂ device₂]) ∧ device₀.width < device₁.width := by
  have hsize : (Json.array [screenToJson app₀ device₀, screenToJson app₁ device₁,
      screenToJson app₂ device₂]).size = 3 := rfl
  rw [arrange, if_pos hsize] at h
  simp only [Json.index_array, List.getElem?_cons_zero, List.getElem?_cons_succ, Option.getD_some,
    readDevice_screenToJson hfits₀, readDevice_screenToJson hfits₁,
    readDevice_screenToJson hfits₂, Option.pure_def, Option.bind_eq_bind, Option.bind_some] at h
  split at h
  · rename_i hw
    exact ⟨(Option.some.inj h).symm, hw.1⟩
  · cases h

/-- The codec round-trips for any number of further devices but two: then the reader takes the
second screen as the reference, and the writer has put the reference first. -/
theorem roundTrips_iff {app : App Prob} {apps : List (App Prob)} {refDevice : Device}
    {devices : List Device} (hlength : devices.length = apps.length) (happ : Fits app refDevice)
    (happs : ∀ pair ∈ apps.zip devices, Fits pair.1 pair.2) :
    RoundTrips app apps refDevice devices ↔ devices.length ≠ 2 := by
  constructor
  · rintro ⟨request, idx, loaded, hwrite, hread, href, -⟩ htwo
    obtain ⟨device₁, device₂, rfl⟩ := List.length_eq_two.mp htwo
    obtain ⟨app₁, app₂, rfl⟩ := List.length_eq_two.mp (hlength.symm.trans htwo)
    have hscreens := screensOf_toJson hwrite
    have hfirst : Fits app₁ device₁ := happs (app₁, device₁) (by simp)
    have hsecond : Fits app₂ device₂ := happs (app₂, device₂) (by simp)
    obtain ⟨arranged, harranged⟩ := arranges_of_jsonToApps hread
    rw [hscreens] at harranged
    obtain ⟨rfl, hw⟩ := arrange_three happ hfirst hsecond harranged
    obtain ⟨_, _, hdevice, _⟩ := jsonToApps_spec hread (hscreens ▸ harranged)
    rw [readDevice_screenToJson hfirst, Option.some.injEq] at hdevice
    rw [hdevice, href] at hw
    exact absurd hw (Int.lt_irrefl _)
  · intro hne
    obtain ⟨app', hread, hrects⟩ := screen_roundtrip happ
    obtain ⟨⟨apps', hreads, hrects'⟩, hdevices⟩ := screens_roundtrip hlength happs
    have harrange : arrange
        (.array (screenToJson app refDevice :: List.zipWith screenToJson apps devices)) =
        some (some (screenToJson app refDevice, List.zipWith screenToJson apps devices)) :=
      arrange_of_ne (by simpa [hlength] using hlength ▸ hne)
    let request := Json.object [("screens", .array (screenToJson app refDevice ::
      List.zipWith screenToJson apps devices))]
    refine ⟨request, -1, ⟨app', apps', refDevice, devices⟩, if_pos hlength, ?_, rfl, rfl, hrects,
      hrects'⟩
    have hid : request.getD "id" (.string "-1") = some (.string "-1") := rfl
    have hidx : parseInt32 ['-', '1'] = some (-1) := by decide
    have hscreens : request.get "screens" = some (.array (screenToJson app refDevice ::
      List.zipWith screenToJson apps devices)) := rfl
    rw [jsonToApps, hid]
    simp [Json.asString, hidx, hscreens, harrange, hread, hreads, readDevice_screenToJson happ,
      hdevices, Loaded.empty]

section Samples

def sampleApp (width height : Int) (view : Rect) : App Unit :=
  .ofViews [makeView ⟨0, 0, width, height⟩ 0, makeView view 1]

theorem sampleApp_fits {width height : Int} {view : Rect} (h : view ≠ ⟨0, 0, width, height⟩)
    (hints : ∀ rect ∈ [⟨0, 0, width, height⟩, view], rect.Ints) :
    Fits (sampleApp width height view) ⟨width, height⟩ where
  rooted := App.rooted_ofViews rfl (by simp [makeView])
  root := rfl
  others := by
    intro rect hr
    obtain rfl : rect = view := by simpa [App.rects, sampleApp, App.ofViews, View.rect,
      makeView] using hr
    exact h
  ints := hints

theorem roundTrips_one_device : RoundTrips (sampleApp 100 200 ⟨10, 10, 20, 20⟩)
    [sampleApp 50 100 ⟨5, 5, 10, 10⟩] ⟨100, 200⟩ [⟨50, 100⟩] :=
  (roundTrips_iff rfl (sampleApp_fits (by decide) (by decide)) (by
    intro pair hp
    obtain rfl := List.mem_singleton.mp hp
    exact sampleApp_fits (by decide) (by decide))).mpr (by decide)

/-- With two further devices the reference device that is read is another one. -/
theorem two_devices_lose_reference :
    ¬ RoundTrips (sampleApp 100 200 ⟨10, 10, 20, 20⟩)
      [sampleApp 120 200 ⟨10, 10, 20, 20⟩, sampleApp 140 200 ⟨10, 10, 20, 20⟩] ⟨100, 200⟩
      [⟨120, 200⟩, ⟨140, 200⟩] ∧
    ∃ request loaded, toJson (sampleApp 100 200 ⟨10, 10, 20, 20⟩)
      [sampleApp 120 200 ⟨10, 10, 20, 20⟩, sampleApp 140 200 ⟨10, 10, 20, 20⟩] ⟨100, 200⟩
      [⟨120, 200⟩, ⟨140, 200⟩] = some request ∧
      jsonToApps request .empty = some (-1, (loaded : Loaded Unit)) ∧
      loaded.refDevice = ⟨120, 200⟩ := by
  refine ⟨?_, _, _, rfl, rfl, rfl⟩
  rintro ⟨request, idx, loaded, hwrite, hread, href, -⟩
  obtain rfl := Option.some.inj hwrite
  have hread' := Option.some.inj hread
  rw [← congrArg (·.2.refDevice) hread'] at href
  revert href
  decide

end Samples
end RoundTrip
end Request
end InferUI
