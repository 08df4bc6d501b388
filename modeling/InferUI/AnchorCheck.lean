import InferUI.Graph

/-!
# The anchoring check on every graph

`IsAnchored` of `model.cpp` where attributes may be missing or form cycles. Its set `visited`
covers the views since the last second target only: the second target starts from a set that
holds nothing but its view. A cycle through two second targets is never noticed.
-/

namespace InferUI
open Search
variable {Prob : Type}

namespace App

/-- Every chain of targets that starts at the view comes to the content frame. -/
def EveryChainEnds (app : App Prob) (o : Orientation) (p : Nat) : Prop :=
  ∀ c, Chain (app.targetsOf o) c → c 0 = p → ∃ n, app.idOf (c n) = 0

/-- How the search goes from one view with a chain that never ends to the next: to its first
target, or to the second when all chains of the first one end. `window` holds the views it came
through since it last took a second target, the view that had this target included. -/
inductive Walk (app : App Prob) (o : Orientation) (v : Nat) : List Nat → Nat → Prop where
  | start : Walk app o v [v] v
  | primary {window : List Nat} {p t : Nat} {rest : List Nat} (h : Walk app o v window p)
    (ht : app.targetsOf o p = t :: rest) (hchain : ¬ app.EveryChainEnds o t) :
    Walk app o v (t :: window) t
  | secondary {window : List Nat} {p t s : Nat} (h : Walk app o v window p)
    (ht : app.targetsOf o p = [t, s]) (hchain : app.EveryChainEnds o t) : Walk app o v [s, p] s

/-- The walk comes to a view without an attribute, or with a target it just came through. -/
def WalkStops (app : App Prob) (o : Orientation) (v : Nat) : Prop :=
  ∃ window p, app.Walk o v window p ∧
    (app.targetsOf o p = [] ∨ ∃ t ∈ app.targetsOf o p, t ∈ window)

/-- With enough fuel the check gives this answer. -/
def Answers (app : App Prob) (o : Orientation) (visited : List Int) (p : Nat) (answer : Bool) :
    Prop :=
  ∃ fuel, app.isAnchored o fuel visited p = some answer

/-! ## Chains -/

/-- The targets the search follows: none from the content frame. -/
def follows (app : App Prob) (o : Orientation) (p : Nat) : List Nat :=
  if app.idOf p = 0 then [] else app.targetsOf o p

def Framed (app : App Prob) (o : Orientation) : Nat → Prop :=
  Grounded (fun p => app.idOf p = 0) (app.follows o)

section
variable {app : App Prob} {o : Orientation}

theorem follows_frame (p : Nat) (h : app.idOf p = 0) : app.follows o p = [] := if_pos h

theorem follows_of_ne {p : Nat} (h : app.idOf p ≠ 0) : app.follows o p = app.targetsOf o p :=
  if_neg h

theorem everyChainEnds_iff {p : Nat} : app.EveryChainEnds o p ↔ app.Framed o p := by
  have hchains : Grounded (fun q => app.idOf q = 0) (app.targetsOf o) p ↔
      app.EveryChainEnds o p := grounded_iff_chains
  rw [← hchains]
  constructor
  · exact Grounded.congr fun q hq => (follows_of_ne hq).symm
  · exact Grounded.congr fun q hq => follows_of_ne hq

theorem framed_iff {p : Nat} (hp : app.idOf p ≠ 0) :
    app.Framed o p ↔ app.targetsOf o p ≠ [] ∧ ∀ t ∈ app.targetsOf o p, app.Framed o t := by
  rw [← follows_of_ne hp]
  exact grounded_iff hp

/-- A view from which the search can return to it has a chain that never ends. -/
theorem Framed.not_cycle {p : Nat} (h : app.Framed o p) :
    ¬ Relation.TransGen (Edge (app.follows o)) p p :=
  Grounded.not_cycle follows_frame h

theorem Framed.reaches {p q : Nat} (h : app.Framed o p) (hq : Reaches (app.follows o) p q) :
    app.Framed o q :=
  Grounded.reaches follows_frame h hq

/-! ## One call -/

/-- Where a call stops: no attribute, or a target in the set that already holds the view. -/
def Seen (app : App Prob) (o : Orientation) (visited : List Int) (p : Nat) : Prop :=
  app.targetsOf o p = [] ∨ ∃ t ∈ app.targetsOf o p, app.idOf t ∈ app.idOf p :: visited

instance (visited : List Int) (p : Nat) : Decidable (app.Seen o visited p) :=
  inferInstanceAs (Decidable (_ ∨ _))

/-- One call in terms of the targets of its view. -/
theorem isAnchored_succ (h : app.Linked o) (fuel : Nat) (visited : List Int) (p : Nat) :
    app.isAnchored o (fuel + 1) visited p =
      if app.idOf p = 0 then some true
      else if app.Seen o visited p then some false
      else (app.isAnchored o fuel (app.idOf p :: visited) ((app.targetsOf o p).headD 0)).bind
        fun anchored =>
          if anchored then ((app.targetsOf o p)[1]?).elim (some true)
            (app.isAnchored o fuel [app.idOf p])
          else some false := by
  rw [isAnchored]
  by_cases hp : app.idOf p = 0
  · rw [if_pos hp, if_pos hp]
  · rw [if_neg hp, if_neg hp]
    obtain ⟨ha, he⟩ | ⟨attr, ha, hrel, he⟩ | ⟨attr, secondary, ha, hrel, hs, he⟩ := h.cases p
    · simp [Seen, ha, he]
    · have hseen : app.Seen o visited p ↔
          app.idOf attr.tgtPrimary ∈ app.idOf p :: visited := by simp [Seen, he]
      simp only [hseen]
      simp only [ha, hrel, he, if_true, List.headD_cons]
      split
      · rfl
      · cases app.isAnchored o fuel (app.idOf p :: visited) attr.tgtPrimary with
        | none => rfl
        | some anchored => cases anchored <;> rfl
    · have hseen : app.Seen o visited p ↔
          app.idOf attr.tgtPrimary ∈ app.idOf p :: visited ∨
            app.idOf secondary ∈ app.idOf p :: visited := by simp [Seen, he]
      simp only [hseen]
      simp only [ha, hrel, hs, he, Bool.false_eq_true, if_false, List.headD_cons]
      by_cases hv : app.idOf attr.tgtPrimary ∈ app.idOf p :: visited
      · rw [if_pos hv, if_pos (Or.inl hv)]
      · rw [if_neg hv]
        by_cases hv' : app.idOf secondary ∈ app.idOf p :: visited
        · rw [if_pos hv', if_pos (Or.inr hv')]
        · rw [if_neg hv', if_neg (not_or.mpr ⟨hv, hv'⟩)]
          rfl

/-- What a call that answers has done. -/
theorem isAnchored_cases (h : app.Linked o) {fuel : Nat} {visited : List Int} {p : Nat}
    {answer : Bool} (hp : app.idOf p ≠ 0)
    (hanswer : app.isAnchored o (fuel + 1) visited p = some answer) :
    (app.Seen o visited p ∧ answer = false) ∨
    ¬ app.Seen o visited p ∧ ∃ t rest, app.targetsOf o p = t :: rest ∧
      ((app.isAnchored o fuel (app.idOf p :: visited) t = some false ∧ answer = false) ∨
      app.isAnchored o fuel (app.idOf p :: visited) t = some true ∧
        ((rest = [] ∧ answer = true) ∨
        ∃ s, rest = [s] ∧ app.isAnchored o fuel [app.idOf p] s = some answer)) := by
  rw [isAnchored_succ h, if_neg hp] at hanswer
  by_cases hseen : app.Seen o visited p
  · rw [if_pos hseen, Option.some.injEq] at hanswer
    exact Or.inl ⟨hseen, hanswer.symm⟩
  · refine Or.inr ⟨hseen, ?_⟩
    rw [if_neg hseen, Option.bind_eq_some_iff] at hanswer
    obtain ⟨first, hfirst, hanswer⟩ := hanswer
    obtain ⟨_, he⟩ | ⟨attr, _, _, he⟩ | ⟨attr, s, _, _, _, he⟩ := h.cases p
    · exact absurd (Or.inl he) hseen
    all_goals
      refine ⟨_, _, he, ?_⟩
      rw [he, List.headD_cons] at hfirst
      rw [he] at hanswer
      cases first
    · exact Or.inl ⟨hfirst, by simpa using hanswer.symm⟩
    · exact Or.inr ⟨hfirst, Or.inl ⟨rfl, by simpa using hanswer.symm⟩⟩
    · exact Or.inl ⟨hfirst, by simpa using hanswer.symm⟩
    · exact Or.inr ⟨hfirst, Or.inr ⟨s, rfl, by simpa using hanswer⟩⟩

theorem isAnchored_mono (h : app.Linked o) {fuel fuel' : Nat} {visited : List Int} {p : Nat}
    {answer : Bool} (hle : fuel ≤ fuel')
    (hanswer : app.isAnchored o fuel visited p = some answer) :
    app.isAnchored o fuel' visited p = some answer := by
  induction fuel generalizing fuel' visited p answer with
  | zero => cases hanswer
  | succ fuel ih =>
    obtain ⟨fuel', rfl⟩ := Nat.exists_eq_add_of_lt (Nat.lt_of_succ_le hle)
    have hle : fuel ≤ fuel + fuel' := Nat.le_add_right _ _
    by_cases hp : app.idOf p = 0
    · rw [isAnchored_succ h, if_pos hp] at hanswer ⊢
      exact hanswer
    · obtain ⟨hseen, rfl⟩ | ⟨hseen, t, rest, he, hcall⟩ := isAnchored_cases h hp hanswer
      · rw [isAnchored_succ h, if_neg hp]
        exact if_pos hseen
      · rw [isAnchored_succ h, if_neg hp, if_neg hseen, he, List.headD_cons]
        obtain ⟨hfirst, rfl⟩ | ⟨hfirst, ⟨rfl, rfl⟩ | ⟨s, rfl, hsecond⟩⟩ := hcall
        · rw [ih hle hfirst]
          rfl
        · rw [ih hle hfirst]
          rfl
        · rw [ih hle hfirst]
          exact ih hle hsecond

theorem answers_seen (h : app.Linked o) {visited : List Int} {p : Nat} (hp : app.idOf p ≠ 0)
    (hseen : app.Seen o visited p) : app.Answers o visited p false := by
  refine ⟨1, ?_⟩
  rw [isAnchored_succ h, if_neg hp, if_pos hseen]

/-- A call answers like its first target when that one is not anchored. -/
theorem answers_false (h : app.Linked o) {visited : List Int} {p t : Nat} {rest : List Nat}
    (hp : app.idOf p ≠ 0) (ht : app.targetsOf o p = t :: rest)
    (hfirst : app.Answers o (app.idOf p :: visited) t false) : app.Answers o visited p false := by
  by_cases hseen : app.Seen o visited p
  · exact answers_seen h hp hseen
  · obtain ⟨fuel, hfuel⟩ := hfirst
    refine ⟨fuel + 1, ?_⟩
    rw [isAnchored_succ h, if_neg hp, if_neg hseen, ht, List.headD_cons, hfuel]
    rfl

theorem answers_single (h : app.Linked o) {visited : List Int} {p t : Nat} (hp : app.idOf p ≠ 0)
    (hseen : ¬ app.Seen o visited p) (ht : app.targetsOf o p = [t])
    (hfirst : app.Answers o (app.idOf p :: visited) t true) : app.Answers o visited p true := by
  obtain ⟨fuel, hfuel⟩ := hfirst
  refine ⟨fuel + 1, ?_⟩
  rw [isAnchored_succ h, if_neg hp, if_neg hseen, ht, List.headD_cons, hfuel]
  rfl

theorem answers_second (h : app.Linked o) {visited : List Int} {p t s : Nat} {answer : Bool}
    (hp : app.idOf p ≠ 0) (hseen : ¬ app.Seen o visited p) (ht : app.targetsOf o p = [t, s])
    (hfirst : app.Answers o (app.idOf p :: visited) t true)
    (hsecond : app.Answers o [app.idOf p] s answer) : app.Answers o visited p answer := by
  obtain ⟨fuel, hfuel⟩ := hfirst
  obtain ⟨fuel', hfuel'⟩ := hsecond
  refine ⟨max fuel fuel' + 1, ?_⟩
  rw [isAnchored_succ h, if_neg hp, if_neg hseen, ht, List.headD_cons,
    isAnchored_mono h (Nat.le_max_left _ _) hfuel]
  exact isAnchored_mono h (Nat.le_max_right _ _) hfuel'

/-! ## Answers are right -/

/-- The set holds ids of views from which the search has come to this one. -/
def Above (app : App Prob) (o : Orientation) (visited : List Int) (p : Nat) : Prop :=
  ∀ q < app.views.length, app.idOf q ∈ visited →
    Relation.TransGen (Edge (app.follows o)) q p

theorem edge_follows {p t : Nat} (hp : app.idOf p ≠ 0) (ht : t ∈ app.targetsOf o p) :
    Edge (app.follows o) p t := by
  rw [Edge, follows_of_ne hp]
  exact ht

theorem Above.self (hids : (app.views.map (·.id)).Nodup) {p t : Nat}
    (hlt : p < app.views.length) (hp : app.idOf p ≠ 0) (ht : t ∈ app.targetsOf o p) :
    app.Above o [app.idOf p] t := by
  intro q hq hm
  obtain rfl := (idOf_inj_of_nodup hids hq hlt).mp (List.mem_singleton.mp hm)
  exact .single (edge_follows hp ht)

theorem Above.next (hids : (app.views.map (·.id)).Nodup) {visited : List Int} {p t : Nat}
    (h : app.Above o visited p) (hlt : p < app.views.length) (hp : app.idOf p ≠ 0)
    (ht : t ∈ app.targetsOf o p) : app.Above o (app.idOf p :: visited) t := by
  intro q hq hm
  obtain he | hm := List.mem_cons.mp hm
  · exact Above.self hids hlt hp ht q hq (List.mem_singleton.mpr he)
  · exact (h q hq hm).tail (edge_follows hp ht)

/-- A target that is seen again closes a cycle. -/
theorem Framed.not_seen (hids : (app.views.map (·.id)).Nodup) (hlinked : app.Linked o)
    {visited : List Int} {p : Nat} (h : app.Framed o p) (hlt : p < app.views.length)
    (hp : app.idOf p ≠ 0) (habove : app.Above o visited p) : ¬ app.Seen o visited p := by
  rintro (hnil | ⟨t, ht, hm⟩)
  · exact ((framed_iff hp).mp h).1 hnil
  · have hedge := edge_follows hp ht
    have hback := habove.next hids hlt hp ht t (hlinked.target_lt ht) hm
    have hcycle : Relation.TransGen (Edge (app.follows o)) t t := hback
    exact Framed.not_cycle (h.reaches (.single hedge)) hcycle

theorem isAnchored_right (hids : (app.views.map (·.id)).Nodup) (hlinked : app.Linked o)
    {fuel : Nat} {visited : List Int} {p : Nat} {answer : Bool} (hlt : p < app.views.length)
    (habove : app.Above o visited p) (h : app.isAnchored o fuel visited p = some answer) :
    answer = true ↔ app.Framed o p := by
  induction fuel generalizing visited p answer with
  | zero => cases h
  | succ fuel ih =>
    by_cases hp : app.idOf p = 0
    · rw [isAnchored_succ hlinked, if_pos hp, Option.some.injEq] at h
      exact ⟨fun _ => .base hp, fun _ => h.symm⟩
    · obtain ⟨hseen, rfl⟩ | ⟨hseen, t, rest, he, hcall⟩ := isAnchored_cases hlinked hp h
      · refine ⟨fun hf => absurd hf (by simp), fun hf => ?_⟩
        exact absurd hseen (hf.not_seen hids hlinked hlt hp habove)
      · have ht : t ∈ app.targetsOf o p := by simp [he]
        have hfirst {b : Bool}
            (hb : app.isAnchored o fuel (app.idOf p :: visited) t = some b) :
            b = true ↔ app.Framed o t :=
          ih (hlinked.target_lt ht) (habove.next hids hlt hp ht) hb
        rw [framed_iff hp, he]
        obtain ⟨hf, rfl⟩ | ⟨hf, ⟨rfl, rfl⟩ | ⟨s, rfl, hsecond⟩⟩ := hcall
        · have hnot := hfirst hf
          simp only [Bool.false_eq_true, false_iff] at hnot
          simp [hnot]
        · simp [(hfirst hf).mp rfl]
        · have hs : s ∈ app.targetsOf o p := by simp [he]
          rw [ih (hlinked.target_lt hs) (Above.self hids hlt hp hs) hsecond]
          simp [(hfirst hf).mp rfl]

/-- A view all of whose chains end is found to be anchored. -/
theorem Framed.answers (hids : (app.views.map (·.id)).Nodup) (hlinked : app.Linked o)
    {visited : List Int} {p : Nat} (h : app.Framed o p) (hlt : p < app.views.length)
    (habove : app.Above o visited p) : app.Answers o visited p true := by
  induction h generalizing visited with
  | @base p hp =>
    refine ⟨1, ?_⟩
    rw [isAnchored_succ hlinked, if_pos hp]
  | @step p hne hall ih =>
    by_cases hp : app.idOf p = 0
    · exact absurd (follows_frame p hp) hne
    · have hseen := Framed.not_seen hids hlinked (.step hne hall) hlt hp habove
      rw [follows_of_ne hp] at ih
      have hcall {visited : List Int} {t : Nat} (ht : t ∈ app.targetsOf o p)
          (hv : app.Above o visited t) : app.Answers o visited t true :=
        ih t ht (hlinked.target_lt ht) hv
      obtain ⟨_, he⟩ | ⟨attr, _, _, he⟩ | ⟨attr, s, _, _, _, he⟩ := hlinked.cases p
      · exact absurd (Or.inl he) hseen
      · have ht : attr.tgtPrimary ∈ app.targetsOf o p := by simp [he]
        exact answers_single hlinked hp hseen he (hcall ht (habove.next hids hlt hp ht))
      · have ht : attr.tgtPrimary ∈ app.targetsOf o p := by simp [he]
        have hs : s ∈ app.targetsOf o p := by simp [he]
        exact answers_second hlinked hp hseen he (hcall ht (habove.next hids hlt hp ht))
          (hcall hs (Above.self hids hlt hp hs))

/-! ## The walk -/

/-- What is known of a view the walk comes to. -/
structure OnWalk (app : App Prob) (o : Orientation) (window : List Nat) (p : Nat) : Prop where
  lt : p < app.views.length
  endless : ¬ app.Framed o p
  window : ∃ rest, window = p :: rest ∧ ∀ q ∈ rest, q < app.views.length ∧
    Relation.TransGen (Edge (app.follows o)) q p

theorem OnWalk.ne {window : List Nat} {p : Nat} (h : app.OnWalk o window p) : app.idOf p ≠ 0 :=
  fun hp => h.endless (.base hp)

theorem Walk.onWalk (hlinked : app.Linked o) {v : Nat} (hv : v < app.views.length)
    (hendless : ¬ app.Framed o v) {window : List Nat} {p : Nat} (h : app.Walk o v window p) :
    app.OnWalk o window p := by
  induction h with
  | start => exact ⟨hv, hendless, [], rfl, by simp⟩
  | @primary window p t rest _ ht hchain ih =>
    have hmem : t ∈ app.targetsOf o p := by simp [ht]
    have hedge := edge_follows ih.ne hmem
    refine ⟨hlinked.target_lt hmem, mt everyChainEnds_iff.mpr hchain, window, rfl, ?_⟩
    obtain ⟨rest, rfl, hrest⟩ := ih.window
    intro q hq
    obtain rfl | hq := List.mem_cons.mp hq
    · exact ⟨ih.lt, .single hedge⟩
    · exact ⟨(hrest q hq).1, (hrest q hq).2.tail hedge⟩
  | @secondary window p t s _ ht hchain ih =>
    have hmem : s ∈ app.targetsOf o p := by simp [ht]
    refine ⟨hlinked.target_lt hmem, ?_, [p], rfl, ?_⟩
    · intro hs
      apply ih.endless
      rw [framed_iff ih.ne, ht]
      simp [hs, everyChainEnds_iff.mp hchain]
    · intro q hq
      obtain rfl := List.mem_singleton.mp hq
      exact ⟨ih.lt, .single (edge_follows ih.ne hmem)⟩

theorem OnWalk.above (hids : (app.views.map (·.id)).Nodup) {rest : List Nat} {p : Nat}
    (h : app.OnWalk o (p :: rest) p) : app.Above o (rest.map app.idOf) p := by
  obtain ⟨rest', he, hrest⟩ := h.window
  obtain rfl := (List.cons.inj he).2
  intro q hq hm
  obtain ⟨r, hr, hid⟩ := List.mem_map.mp hm
  obtain rfl := (idOf_inj_of_nodup hids (hrest r hr).1 hq).mp hid
  exact (hrest r hr).2

theorem OnWalk.seen_iff (hids : (app.views.map (·.id)).Nodup) (hlinked : app.Linked o)
    {rest : List Nat} {p : Nat} (h : app.OnWalk o (p :: rest) p) :
    app.Seen o (rest.map app.idOf) p ↔
      app.targetsOf o p = [] ∨ ∃ t ∈ app.targetsOf o p, t ∈ p :: rest := by
  obtain ⟨rest', he, hrest⟩ := h.window
  obtain rfl := (List.cons.inj he).2
  have hmem (t : Nat) (ht : t ∈ app.targetsOf o p) :
      app.idOf t ∈ app.idOf p :: rest.map app.idOf ↔ t ∈ p :: rest := by
    have hlt := hlinked.target_lt ht
    rw [← List.map_cons, List.mem_map]
    constructor
    · rintro ⟨q, hq, hid⟩
      have hqlt : q < app.views.length := by
        obtain rfl | hq := List.mem_cons.mp hq
        · exact h.lt
        · exact (hrest q hq).1
      exact (idOf_inj_of_nodup hids hqlt hlt).mp hid ▸ hq
    · intro hm
      exact ⟨t, hm, rfl⟩
  rw [Seen]
  exact or_congr Iff.rfl (exists_congr fun t => and_congr_right (hmem t))

/-- A search that answers on its walk has come to a place where it stops. -/
theorem walkStops_of_answer (hids : (app.views.map (·.id)).Nodup) (hlinked : app.Linked o)
    {v : Nat} (hv : v < app.views.length) (hendless : ¬ app.Framed o v) {fuel : Nat}
    {rest : List Nat} {p : Nat} {answer : Bool} (hwalk : app.Walk o v (p :: rest) p)
    (h : app.isAnchored o fuel (rest.map app.idOf) p = some answer) : app.WalkStops o v := by
  induction fuel generalizing rest p answer with
  | zero => cases h
  | succ fuel ih =>
    have hon := hwalk.onWalk hlinked hv hendless
    obtain ⟨hseen, _⟩ | ⟨_, t, ts, he, hcall⟩ := isAnchored_cases hlinked hon.ne h
    · exact ⟨_, p, hwalk, (hon.seen_iff hids hlinked).mp hseen⟩
    · have ht : t ∈ app.targetsOf o p := by simp [he]
      have hright {b : Bool}
          (hb : app.isAnchored o fuel (app.idOf p :: rest.map app.idOf) t = some b) :
          b = true ↔ app.Framed o t :=
        isAnchored_right hids hlinked (hlinked.target_lt ht)
          ((hon.above hids).next hids hon.lt hon.ne ht) hb
      obtain ⟨hf, _⟩ | ⟨hf, ⟨rfl, _⟩ | ⟨s, rfl, hsecond⟩⟩ := hcall
      · have hchain : ¬ app.EveryChainEnds o t := by
          rw [everyChainEnds_iff, ← hright hf]
          simp
        have hf : app.isAnchored o fuel ((p :: rest).map app.idOf) t = some false := hf
        exact ih (hwalk.primary he hchain) hf
      · refine absurd ?_ hon.endless
        rw [framed_iff hon.ne, he]
        simp [(hright hf).mp rfl]
      · have hchain := everyChainEnds_iff.mpr ((hright hf).mp rfl)
        have hsecond : app.isAnchored o fuel ([p].map app.idOf) s = some answer := hsecond
        exact ih (hwalk.secondary he hchain) hsecond

/-- An answer further down the walk is handed back to its start. -/
theorem Walk.answers (hids : (app.views.map (·.id)).Nodup) (hlinked : app.Linked o) {v : Nat}
    (hv : v < app.views.length) (hendless : ¬ app.Framed o v) {window : List Nat} {p : Nat}
    (h : app.Walk o v window p) {rest : List Nat} (hw : window = p :: rest)
    (hanswer : app.Answers o (rest.map app.idOf) p false) : app.Answers o [] v false := by
  induction h generalizing rest with
  | start =>
    obtain rfl := (List.cons.inj hw).2
    exact hanswer
  | @primary window p t ts h ht _ ih =>
    have hon := h.onWalk hlinked hv hendless
    obtain rfl := (List.cons.inj hw).2
    obtain ⟨before, rfl, _⟩ := hon.window
    exact ih rfl (answers_false hlinked hon.ne ht hanswer)
  | @secondary window p t s h ht hchain ih =>
    have hon := h.onWalk hlinked hv hendless
    obtain rfl := (List.cons.inj hw).2
    obtain ⟨before, rfl, _⟩ := hon.window
    apply ih rfl
    by_cases hseen : app.Seen o (before.map app.idOf) p
    · exact answers_seen hlinked hon.ne hseen
    · have hmem : t ∈ app.targetsOf o p := by simp [ht]
      have hfirst := (everyChainEnds_iff.mp hchain).answers hids hlinked (hlinked.target_lt hmem)
        ((hon.above hids).next hids hon.lt hon.ne hmem)
      exact answers_second hlinked hon.ne hseen ht hfirst hanswer

/-- The check ends with the right answer exactly when all chains end or its walk comes to a
view without an attribute, or with a target it came through since the last second target. -/
theorem isAnchored_correct_iff (app : App Prob) (o : Orientation)
    (hids : (app.views.map (·.id)).Nodup) (hlinked : app.Linked o) (v : Nat)
    (hv : v < app.views.length) :
    (∃ answer, app.Answers o [] v answer ∧ (answer = true ↔ app.EveryChainEnds o v)) ↔
      app.EveryChainEnds o v ∨ app.WalkStops o v := by
  by_cases hframed : app.Framed o v
  · have hends := everyChainEnds_iff.mpr hframed
    refine ⟨fun _ => Or.inl hends, fun _ => ⟨true, ?_, by simp [hends]⟩⟩
    exact hframed.answers hids hlinked hv fun q _ hm => absurd hm List.not_mem_nil
  · have hends : ¬ app.EveryChainEnds o v := mt everyChainEnds_iff.mp hframed
    simp only [hends, iff_false, false_or]
    constructor
    · rintro ⟨answer, ⟨fuel, hfuel⟩, _⟩
      have hfuel : app.isAnchored o fuel (([] : List Nat).map app.idOf) v = some answer := hfuel
      exact walkStops_of_answer hids hlinked hv hframed .start hfuel
    · rintro ⟨window, p, hwalk, hstop⟩
      have hon := hwalk.onWalk hlinked hv hframed
      obtain ⟨rest, rfl, _⟩ := hon.window
      refine ⟨false, ?_, by simp⟩
      exact hwalk.answers hids hlinked hv hframed rfl
        (answers_seen hlinked hon.ne ((hon.seen_iff hids hlinked).mpr hstop))

theorem isAnchored_none (h : app.Linked o) {fuel : Nat} {visited : List Int} {p t s : Nat}
    (hp : app.idOf p ≠ 0) (hseen : ¬ app.Seen o visited p) (ht : app.targetsOf o p = [t, s])
    (hframe : app.idOf t = 0) (hnone : app.isAnchored o fuel [app.idOf p] s = none) :
    app.isAnchored o (fuel + 1) visited p = none := by
  rw [isAnchored_succ h, if_neg hp, if_neg hseen, ht, List.headD_cons]
  cases fuel with
  | zero => rfl
  | succ fuel =>
    rw [isAnchored_succ h fuel _ t, if_pos hframe]
    exact hnone

end

/-! ## Three views in a circle -/

/-- A view centred between the content frame and another view. -/
def centredOn (p next : Nat) : Attribute ℚ := .ofCenter .l2lxr2r .fixed 0 0 p 0 next

/-- Three views, each centred between the content frame and the next one. -/
def circleApp : App ℚ :=
  (((App.ofViews [⟨0, 0, 100, 100, 0, 0, fun _ => none, fun _ => none⟩,
    ⟨40, 0, 60, 20, 1, 0, fun _ => none, fun _ => none⟩,
    ⟨40, 30, 60, 50, 2, 0, fun _ => none, fun _ => none⟩,
    ⟨40, 60, 60, 80, 3, 0, fun _ => none, fun _ => none⟩]).applyAttribute .horizontal 1
      (centredOn 1 2)).applyAttribute .horizontal 2 (centredOn 2 3)).applyAttribute .horizontal 3
      (centredOn 3 1)

theorem circleApp_linked : circleApp.Linked .horizontal := by
  have hattrs : ∀ p < 4, ∀ attr ∈ circleApp.getAttribute .horizontal p, attr.tgtPrimary < 4 ∧
      (attr.type.isRelationalAnchor = false → ∃ r < 4, attr.tgtSecondary = some r) := by
    decide +kernel
  intro p attr h
  by_cases hp : p < circleApp.views.length
  · exact hattrs p hp attr h
  · rw [getAttribute_of_length_le _ (by omega)] at h
    cases h

theorem isAnchored_correct_iff_circle :
    (∃ answer, circleApp.Answers .horizontal [] 1 answer ∧
      (answer = true ↔ circleApp.EveryChainEnds .horizontal 1)) ↔
      circleApp.EveryChainEnds .horizontal 1 ∨ circleApp.WalkStops .horizontal 1 :=
  isAnchored_correct_iff circleApp .horizontal (by decide) circleApp_linked 1 (by decide)

/-- Each view takes the next one as its second target, with a set that holds itself only. -/
theorem circle_never_answers :
    ¬ ∃ answer, circleApp.Answers .horizontal [] 1 answer ∧
      (answer = true ↔ circleApp.EveryChainEnds .horizontal 1) := by
  have hround (fuel : Nat) : circleApp.isAnchored .horizontal fuel [3] 1 = none ∧
      circleApp.isAnchored .horizontal fuel [1] 2 = none ∧
      circleApp.isAnchored .horizontal fuel [2] 3 = none := by
    induction fuel with
    | zero => exact ⟨rfl, rfl, rfl⟩
    | succ fuel ih =>
      refine ⟨isAnchored_none circleApp_linked (t := 0) (s := 2) ?_ ?_ ?_ ?_ ih.2.1,
        isAnchored_none circleApp_linked (t := 0) (s := 3) ?_ ?_ ?_ ?_ ih.2.2,
        isAnchored_none circleApp_linked (t := 0) (s := 1) ?_ ?_ ?_ ?_ ih.1⟩ <;> decide
  rintro ⟨answer, ⟨fuel, hfuel⟩, _⟩
  cases fuel with
  | zero => cases hfuel
  | succ fuel =>
    rw [isAnchored_none circleApp_linked (t := 0) (s := 2) (by decide) (by decide) (by decide)
      (by decide) (hround fuel).2.1] at hfuel
    cases hfuel

end App
end InferUI
