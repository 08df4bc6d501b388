import InferUI.UserFeedback

/-!
# What the synthesizer is given

The apps `gen_apps` that `UserFeedbackSynthesis` gives to the synthesizer, at the start of every
iteration. As long as the base synthesizer succeeds they hold the positions the user gave and no
others. The fallback synthesizer writes the positions of its own layout to them, and nothing takes
these away again.
-/

namespace InferUI
open DoWhile
variable {Prob : Type}

namespace UserFeedback

/-- A view that was given has the position of the ground truth, any other view but the root has
none. -/
def OnlyFeedback (apps : List (App Prob)) (spec : Spec Prob) : Prop :=
  ∀ d v truth, 1 ≤ v → viewAt apps d v = some truth →
    ∃ fixed view, spec.fixedViews[d]? = some fixed ∧ viewAt spec.genApps d v = some view ∧
      view.position = if v ∈ fixed then truth.position else (-1, -1, -1, -1)

/-- The fallback synthesizer is not asked in this iteration. -/
def BaseAnswers (calls : Calls Prob) (flags : Flags) (input : Input Prob) (st : Loop Prob) : Prop :=
  flags.baseSynFallback = false ∨
    (calls.baseSynthesizer st.iteration input.app st.spec.genApps input.refDevice
      input.devices).status = .success

/-- A success of the fallback synthesizer writes a model to the apps it is given. -/
def WritesBack (K : Type) (calls : Calls Prob) : Prop :=
  ∀ n app apps, (∃ v : Assignment K,
    (calls.fallbackSynthesizer n app apps).1.status = .success ∧
      (calls.fallbackSynthesizer n app apps).2 = writePositions apps v) ∨
    (calls.fallbackSynthesizer n app apps).1.status ≠ .success ∧
      (calls.fallbackSynthesizer n app apps).2 = apps

section
variable {calls : Calls Prob} {flags : Flags} {input : Input Prob} {st : Loop Prob}

theorem BaseAnswers.genApps (h : BaseAnswers calls flags input st) :
    (answer calls flags input st).2 = st.spec.genApps := by
  unfold answer
  obtain h | h := h <;> simp [h]

theorem viewAt_emptyApp (apps : List (App Prob)) (d v : Nat) :
    viewAt (apps.map emptyApp) d v = (viewAt apps d v).map fun view =>
      if view.isContentFrame then
        { xleft := view.xleft, ytop := view.ytop, xright := view.xright, ybottom := view.ybottom,
          id := view.id, pos := v }
      else { xleft := -1, ytop := -1, xright := -1, ybottom := -1, id := view.id, pos := v } := by
  rw [viewAt, viewAt, List.getElem?_map]
  cases apps[d]? with
  | none => rfl
  | some app =>
    rw [Option.map_some, Option.bind_some, Option.bind_some, emptyApp, App.views_ofViews,
      List.getElem?_map, Option.map_map]
    congr 1
    funext view
    simp only [Function.comp_apply]
    split <;> rfl

theorem start_onlyFeedback (happs : ∀ app ∈ input.apps, app.Rooted) :
    OnlyFeedback input.apps (start input).spec := by
  intro d v truth hv htruth
  obtain ⟨app, happ, hview⟩ := Option.bind_eq_some_iff.mp htruth
  have hframe : truth.isContentFrame = false := by
    have hroot := happs app (List.mem_of_getElem? happ)
    obtain ⟨hlt, rfl⟩ := List.getElem?_eq_some_iff.mp hview
    have hid := mt (hroot.idOf_eq_zero hlt).mp (by omega)
    rw [app.idOf_eq hlt] at hid
    simpa [View.isContentFrame] using hid
  refine ⟨∅, { xleft := -1, ytop := -1, xright := -1, ybottom := -1, id := truth.id, pos := v },
    ?_, ?_, rfl⟩
  · rw [start, List.getElem?_map, happ]
    rfl
  · rw [start, viewAt_emptyApp, htruth, Option.map_some, hframe]
    rfl

/-- Giving a view to the synthesizer. -/
theorem Added.onlyFeedback {spec spec' : Spec Prob} {d v : Nat}
    (h : Added input.apps spec spec' d v) (hspec : OnlyFeedback input.apps spec) :
    OnlyFeedback input.apps spec' := by
  obtain ⟨_, _, given, hgiven, rfl⟩ := h
  intro d' v' truth hv' htruth
  obtain ⟨fixed, view, hfixed, hview, hposition⟩ := hspec d' v' truth hv' htruth
  refine ⟨if d = d' then insert v fixed else fixed,
    if (d', v') = (d, v) then view.setPositionOf given else view, ?_, ?_, ?_⟩
  · rw [Spec.fix, List.getElem?_modify, hfixed]
    rfl
  · have hget := viewAt_modifyView spec.genApps (d, v) (f := fun view => view.setPositionOf given)
      (fun _ => rfl) d' v'
    rw [hview] at hget
    exact hget
  · by_cases hd : d = d'
    · subst hd
      by_cases hv : v' = v
      · subst hv
        obtain rfl := Option.some.inj (hgiven.symm.trans htruth)
        simp [View.position, View.setPositionOf]
      · simp [hv, hposition]
    · simp [hd, Ne.symm hd, hposition]

theorem body_onlyFeedback {next : Loop Prob} (hspec : OnlyFeedback input.apps st.spec)
    (hbase : BaseAnswers calls flags input st) (h : body calls flags input st = .again next) :
    OnlyFeedback input.apps next.spec := by
  obtain ⟨_, _, d, _, v, hadded⟩ := body_again h
  rw [hbase.genApps] at hadded
  exact hadded.onlyFeedback hspec

end

/-- In a run in which the base synthesizer answers in every iteration, the synthesizer is given
nothing but the user's feedback. -/
theorem spec_only_feedback (calls : Calls Prob) (flags : Flags) (input : Input Prob)
    (happs : ∀ app ∈ input.apps, app.Rooted) (n : Nat) (st : Loop Prob)
    (h : After (body calls flags input) (start input) n st)
    (hbase : ∀ k s, k < n → After (body calls flags input) (start input) k s →
      BaseAnswers calls flags input s) :
    OnlyFeedback input.apps st.spec :=
  h.invariant_of (start_onlyFeedback happs)
    (fun _ _ hspec hanswer hbody => body_onlyFeedback hspec hanswer hbody) hbase

theorem rowInput_rooted : ∀ app ∈ rowInput.apps, app.Rooted := by
  intro app happ
  obtain rfl := List.mem_singleton.mp happ
  exact ⟨by decide, by intro root h; cases h; rfl, by decide⟩

/-- A base synthesizer that always answers. -/
def answeringCalls : Calls ℚ :=
  { failingCalls with baseSynthesizer := fun _ app _ _ _ => ⟨app, .success⟩ }

theorem spec_only_feedback_row :
    ∃ st, After (body answeringCalls ⟨true, false⟩ rowInput) (start rowInput) 1 st ∧
      OnlyFeedback rowInput.apps st.spec := by
  have hagain :
      (body answeringCalls ⟨true, false⟩ rowInput (start rowInput)).again?.isSome = true := by
    decide +kernel
  obtain ⟨st, hst⟩ := Option.isSome_iff_exists.mp hagain
  have hafter := After.start.again (Next.again?_eq_some hst)
  exact ⟨st, hafter, spec_only_feedback answeringCalls ⟨true, false⟩ rowInput rowInput_rooted 1 st
    hafter fun _ _ _ _ => Or.inr rfl⟩

/-- The base synthesizer fails and the loop goes on with the answer of the fallback synthesizer.
Then the second view has a position that the user never gave. -/
theorem fallback_answer_is_given :
    WritesBack ℚ failingCalls ∧ (∀ app ∈ rowInput.apps, app.Rooted) ∧
      ∃ st, After (body failingCalls ⟨true, false⟩ rowInput) (start rowInput) 1 st ∧
        ¬ OnlyFeedback rowInput.apps st.spec := by
  refine ⟨fun _ _ _ => Or.inl ⟨rowModel, rfl, rfl⟩, rowInput_rooted, ?_⟩
  have hagain : (body failingCalls ⟨true, false⟩ rowInput (start rowInput)).again?.map (fun st =>
      (st.spec.fixedViews, (viewAt st.spec.genApps 0 2).map View.position)) =
      some ([{1}], some (150, 40, 170, 60)) := by
    decide +kernel
  obtain ⟨st, hst, hspec⟩ := Option.map_eq_some_iff.mp hagain
  simp only [Prod.mk.injEq] at hspec
  obtain ⟨hfixedViews, hposition⟩ := hspec
  refine ⟨st, After.start.again (Next.again?_eq_some hst), fun honly => ?_⟩
  obtain ⟨fixed, view, hfixed, hview, he⟩ := honly 0 2 _ (by decide) rfl
  obtain rfl : {1} = fixed := by simpa [hfixedViews] using hfixed
  rw [hview, Option.map_some, Option.some.injEq, he] at hposition
  simp at hposition

end UserFeedback
end InferUI
