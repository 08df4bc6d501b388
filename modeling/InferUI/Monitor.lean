import Mathlib.Algebra.BigOperators.Group.Multiset.Basic
import Mathlib.Algebra.Order.BigOperators.Group.Multiset
import Mathlib.Algebra.Order.Ring.Nat
import Mathlib.Data.Multiset.Bind
import Mathlib.Logic.Relation

/-!
# Threads under one lock

Threads share a state that they only touch under one lock, and wait for each other on condition
variables. A step is a whole critical section, a notification, or a wake-up without one, so the
steps of a run are in the order in which the lock was taken. The main rule is about wake-ups that
are not lost: what a sleeping thread waits for is never there without a thread that is awake to
take it, or about to wake one.
-/

namespace Monitor
variable {L S C : Type}

/-- What the threads of a program do. `L` is the state of one thread. -/
structure System (L S C : Type) where
  /-- The process still runs: a failed check ends it with all its threads. -/
  alive : S → Bool
  /-- A critical section, or a step outside the lock, and the threads it creates; `none` for a
  thread that cannot go on by itself. -/
  act : L → S → Option (L × S × List L)
  /-- The condition variable on which a thread sleeps. -/
  waits : L → Option C
  /-- A sleeping thread that goes for the lock again. -/
  woken : L → L
  /-- `notify_one`, and how the thread goes on. -/
  notifiesOne : L → Option (C × L)
  /-- `notify_all`, and how the thread goes on. -/
  notifiesAll : L → Option (C × L)

structure Config (L S : Type) where
  threads : Multiset L
  shared : S

namespace System
variable [DecidableEq C] (sys : System L S C)

/-- What `notify_all` does to a thread. -/
def wake (c : C) (l : L) : L := if sys.waits l = some c then sys.woken l else l

/-- A thread moves on by itself. -/
inductive Moves : Config L S → Config L S → Prop
  | act {l l' : L} {s s' : S} {created : List L} {ts : Multiset L}
      (h : sys.act l s = some (l', s', created)) :
      Moves ⟨l ::ₘ ts, s⟩ ⟨l' ::ₘ (created + ts), s'⟩
  | one {l l' w : L} {c : C} {s : S} {ts : Multiset L} (h : sys.notifiesOne l = some (c, l'))
      (hw : sys.waits w = some c) : Moves ⟨l ::ₘ w ::ₘ ts, s⟩ ⟨l' ::ₘ sys.woken w ::ₘ ts, s⟩
  | nobody {l l' : L} {c : C} {s : S} {ts : Multiset L} (h : sys.notifiesOne l = some (c, l'))
      (hw : ∀ w ∈ ts, sys.waits w ≠ some c) : Moves ⟨l ::ₘ ts, s⟩ ⟨l' ::ₘ ts, s⟩
  | all {l l' : L} {c : C} {s : S} {ts : Multiset L} (h : sys.notifiesAll l = some (c, l')) :
      Moves ⟨l ::ₘ ts, s⟩ ⟨l' ::ₘ ts.map (sys.wake c), s⟩

/-- A step of the program: a thread may also wake up without being notified. -/
inductive Step : Config L S → Config L S → Prop
  | moves {a b : Config L S} (halive : sys.alive a.shared = true) (h : sys.Moves a b) : Step a b
  | spurious {w : L} {c : C} {s : S} {ts : Multiset L} (halive : sys.alive s = true)
      (hw : sys.waits w = some c) : Step ⟨w ::ₘ ts, s⟩ ⟨sys.woken w ::ₘ ts, s⟩

/-- Any number of steps, in any order of the threads. -/
abbrev Reaches : Config L S → Config L S → Prop := Relation.ReflTransGen sys.Step

/-- Every thread is asleep or at its end. -/
def Quiet (cfg : Config L S) : Prop := ∀ cfg', ¬ sys.Moves cfg cfg'

variable {sys}

/-- What is kept by every critical section, about the shared state and what the threads hold. -/
theorem Step.balance {M : Type} [AddCommMonoid M] {μ : L → M} {P : S → M → Prop}
    {a b : Config L S} (h : sys.Step a b) (ha : P a.shared (a.threads.map μ).sum)
    (hact : ∀ {l l' s' created}, l ∈ a.threads →
      sys.act l a.shared = some (l', s', created) → ∀ rest, P a.shared (μ l + rest) →
      P s' (μ l' + (((created : Multiset L).map μ).sum + rest)))
    (hwoken : ∀ {w c}, sys.waits w = some c → μ (sys.woken w) = μ w)
    (hone : ∀ {l c l'}, sys.notifiesOne l = some (c, l') → μ l' = μ l)
    (hall : ∀ {l c l'}, sys.notifiesAll l = some (c, l') → μ l' = μ l) :
    P b.shared (b.threads.map μ).sum := by
  cases h with
  | moves halive hmoves =>
    cases hmoves with
    | act h =>
      simp only [Multiset.map_cons, Multiset.sum_cons, Multiset.map_add, Multiset.sum_add] at ha ⊢
      exact hact (Multiset.mem_cons_self _ _) h _ ha
    | one h hw =>
      simp only [Multiset.map_cons, Multiset.sum_cons, hone h, hwoken hw] at ha ⊢
      exact ha
    | nobody h hw =>
      simp only [Multiset.map_cons, Multiset.sum_cons, hone h] at ha ⊢
      exact ha
    | @all l l' c s ts h =>
      have hsame : ∀ w, μ (sys.wake c w) = μ w := by
        intro w
        rw [wake]
        split
        · exact hwoken ‹_›
        · rfl
      simp only [Multiset.map_cons, Multiset.sum_cons, Multiset.map_map, Function.comp_def, hsame,
        hall h] at ha ⊢
      exact ha
  | spurious halive hw =>
    simp only [Multiset.map_cons, Multiset.sum_cons, hwoken hw] at ha ⊢
    exact ha

/-- What every thread keeps for itself and for the others. -/
theorem Step.each {I : S → L → Prop} {a b : Config L S} (h : sys.Step a b)
    (ha : ∀ l ∈ a.threads, I a.shared l)
    (hact : ∀ {l l' s' created}, l ∈ a.threads →
      sys.act l a.shared = some (l', s', created) → I a.shared l →
      I s' l' ∧ (∀ w ∈ created, I s' w) ∧ ∀ m, I a.shared m → I s' m)
    (hwoken : ∀ {w c s}, sys.waits w = some c → I s w → I s (sys.woken w))
    (hone : ∀ {l c l' s}, sys.notifiesOne l = some (c, l') → I s l → I s l')
    (hall : ∀ {l c l' s}, sys.notifiesAll l = some (c, l') → I s l → I s l') :
    ∀ l ∈ b.threads, I b.shared l := by
  cases h with
  | moves halive hmoves =>
    cases hmoves with
    | act h =>
      simp only [Multiset.forall_mem_cons, Multiset.mem_add, Multiset.mem_coe] at ha ⊢
      obtain ⟨hl', hcreated, hothers⟩ := hact (Multiset.mem_cons_self _ _) h ha.1
      refine ⟨hl', ?_⟩
      rintro m (hm | hm)
      · exact hcreated m hm
      · exact hothers m (ha.2 m hm)
    | one h hw =>
      simp only [Multiset.forall_mem_cons] at ha ⊢
      exact ⟨hone h ha.1, hwoken hw ha.2.1, ha.2.2⟩
    | nobody h hw =>
      simp only [Multiset.forall_mem_cons] at ha ⊢
      exact ⟨hone h ha.1, ha.2⟩
    | @all l l' c s ts h =>
      simp only [Multiset.forall_mem_cons, Multiset.mem_map, forall_exists_index, and_imp,
        forall_apply_eq_imp_iff₂] at ha ⊢
      refine ⟨hall h ha.1, fun w hw => ?_⟩
      rw [wake]
      split
      · exact hwoken ‹_› (ha.2 w hw)
      · exact ha.2 w hw
  | spurious halive hw =>
    simp only [Multiset.forall_mem_cons] at ha ⊢
    exact ⟨hwoken hw ha.1, ha.2⟩

/-- An invariant of the shared state is one of the critical sections. -/
theorem Step.shared {P : S → Prop} {a b : Config L S} (h : sys.Step a b) (ha : P a.shared)
    (hact : ∀ {l l' s' created}, l ∈ a.threads →
      sys.act l a.shared = some (l', s', created) → P a.shared → P s') : P b.shared := by
  cases h with
  | moves halive hmoves =>
    cases hmoves with
    | act h => exact hact (Multiset.mem_cons_self _ _) h ha
    | one | nobody | all => exact ha
  | spurious => exact ha

theorem Reaches.invariant {P : Config L S → Prop} {a b : Config L S} (h : sys.Reaches a b)
    (ha : P a) (hstep : ∀ b c, sys.Reaches a b → P b → sys.Step b c → P c) : P b := by
  induction h with
  | refl => exact ha
  | tail hrun step ih => exact hstep _ _ hrun ih step

theorem Reaches.balance {M : Type} [AddCommMonoid M] {μ : L → M} (P : S → M → Prop)
    {a b : Config L S} (h : sys.Reaches a b) (ha : P a.shared (a.threads.map μ).sum)
    (hact : ∀ {cfg l l' s' created}, sys.Reaches a cfg → l ∈ cfg.threads →
      sys.act l cfg.shared = some (l', s', created) → ∀ rest, P cfg.shared (μ l + rest) →
      P s' (μ l' + (((created : Multiset L).map μ).sum + rest)))
    (hwoken : ∀ {w c}, sys.waits w = some c → μ (sys.woken w) = μ w)
    (hone : ∀ {l c l'}, sys.notifiesOne l = some (c, l') → μ l' = μ l)
    (hall : ∀ {l c l'}, sys.notifiesAll l = some (c, l') → μ l' = μ l) :
    P b.shared (b.threads.map μ).sum :=
  h.invariant (P := fun cfg => P cfg.shared (cfg.threads.map μ).sum) ha
    fun _ _ hrun hP hstep => hstep.balance hP (hact hrun) hwoken hone hall

theorem Reaches.each (I : S → L → Prop) {a b : Config L S} (h : sys.Reaches a b)
    (ha : ∀ l ∈ a.threads, I a.shared l)
    (hact : ∀ {cfg l l' s' created}, sys.Reaches a cfg → l ∈ cfg.threads →
      sys.act l cfg.shared = some (l', s', created) → I cfg.shared l →
      I s' l' ∧ (∀ w ∈ created, I s' w) ∧ ∀ m, I cfg.shared m → I s' m)
    (hwoken : ∀ {w c s}, sys.waits w = some c → I s w → I s (sys.woken w))
    (hone : ∀ {l c l' s}, sys.notifiesOne l = some (c, l') → I s l → I s l')
    (hall : ∀ {l c l' s}, sys.notifiesAll l = some (c, l') → I s l → I s l') :
    ∀ l ∈ b.threads, I b.shared l :=
  h.invariant (P := fun cfg => ∀ l ∈ cfg.threads, I cfg.shared l) ha
    fun _ _ hrun hI hstep => hstep.each hI (hact hrun) hwoken hone hall

theorem Reaches.shared (P : S → Prop) {a b : Config L S} (h : sys.Reaches a b) (ha : P a.shared)
    (hact : ∀ {cfg l l' s' created}, sys.Reaches a cfg → l ∈ cfg.threads →
      sys.act l cfg.shared = some (l', s', created) → P cfg.shared → P s') : P b.shared :=
  h.invariant (P := fun cfg => P cfg.shared) ha
    fun _ _ hrun hP hstep => hstep.shared hP (hact hrun)

omit [DecidableEq C] in
theorem mem_sum_map {A : Type} {μ : L → Multiset A} {ts : Multiset L} {x : A} :
    x ∈ (ts.map μ).sum ↔ ∃ l ∈ ts, x ∈ μ l := Multiset.mem_bind

omit [DecidableEq C] in
theorem sum_map_eq_zero {M : Type} [AddCommMonoid M] {μ : L → M} {ts : Multiset L}
    (h : ∀ l ∈ ts, μ l = 0) : (ts.map μ).sum = 0 := by
  rw [Multiset.map_congr rfl h, Multiset.sum_map_zero]

omit [DecidableEq C] in
theorem coe_snoc {A : Type} (xs : List A) (x : A) :
    ((xs ++ [x] : List A) : Multiset A) = (xs : Multiset A) + {x} :=
  (Multiset.coe_add xs [x]).symm

/-- Who holds what is held only once. -/
theorem eq_of_mem_sum {A : Type} {μ : L → Multiset A} {ts : Multiset L}
    (h : (ts.map μ).sum.Nodup) {l m : L} (hl : l ∈ ts) (hm : m ∈ ts) {x : A} (hxl : x ∈ μ l)
    (hxm : x ∈ μ m) : l = m := by
  by_contra hne
  obtain ⟨rest, rfl⟩ := Multiset.exists_cons_of_mem hl
  obtain ⟨rest, rfl⟩ := Multiset.exists_cons_of_mem
    ((Multiset.mem_cons.mp hm).resolve_left fun heq => hne heq.symm)
  rw [Multiset.map_cons, Multiset.map_cons, Multiset.sum_cons, Multiset.sum_cons] at h
  obtain ⟨-, -, hdisjoint⟩ := Multiset.nodup_add.mp h
  exact Multiset.disjoint_left.mp hdisjoint hxl (Multiset.mem_add.mpr (.inl hxm))

theorem Quiet.not_act {cfg : Config L S} (h : sys.Quiet cfg) {l : L} (hl : l ∈ cfg.threads) :
    sys.act l cfg.shared = none := by
  rw [Option.eq_none_iff_forall_not_mem]
  rintro ⟨l', s', created⟩ hact
  obtain ⟨ts, hts⟩ := Multiset.exists_cons_of_mem hl
  obtain ⟨threads, shared⟩ := cfg
  subst hts
  exact h _ (.act hact)

theorem Quiet.not_notifiesOne {cfg : Config L S} (h : sys.Quiet cfg) {l : L}
    (hl : l ∈ cfg.threads) : sys.notifiesOne l = none := by
  rw [Option.eq_none_iff_forall_not_mem]
  rintro ⟨c, l'⟩ hone
  obtain ⟨ts, hts⟩ := Multiset.exists_cons_of_mem hl
  obtain ⟨threads, shared⟩ := cfg
  subst hts
  by_cases hw : ∃ w ∈ ts, sys.waits w = some c
  · obtain ⟨w, hw, hwaits⟩ := hw
    obtain ⟨rest, rfl⟩ := Multiset.exists_cons_of_mem hw
    exact h _ (.one hone hwaits)
  · exact h _ (.nobody hone fun w hmem hwaits => hw ⟨w, hmem, hwaits⟩)

theorem Quiet.not_notifiesAll {cfg : Config L S} (h : sys.Quiet cfg) {l : L}
    (hl : l ∈ cfg.threads) : sys.notifiesAll l = none := by
  rw [Option.eq_none_iff_forall_not_mem]
  rintro ⟨c, l'⟩ hall
  obtain ⟨ts, hts⟩ := Multiset.exists_cons_of_mem hl
  obtain ⟨threads, shared⟩ := cfg
  subst hts
  exact h _ (.all hall)

theorem quiet_of_stuck {cfg : Config L S} (h : ∀ l ∈ cfg.threads, sys.act l cfg.shared = none ∧
    sys.notifiesOne l = none ∧ sys.notifiesAll l = none) : sys.Quiet cfg := by
  intro cfg' hmoves
  cases hmoves with
  | act hact =>
    rw [(h _ (Multiset.mem_cons_self _ _)).1] at hact
    cases hact
  | one hone | nobody hone =>
    rw [(h _ (Multiset.mem_cons_self _ _)).2.1] at hone
    cases hone
  | all hall =>
    rw [(h _ (Multiset.mem_cons_self _ _)).2.2] at hall
    cases hall

/-! ### Given schedules -/

variable (sys) in
/-- `notify_one` that wakes the first sleeper. -/
def wakeFirst (c : C) : List L → Option (List L)
  | [] => none
  | w :: ts =>
    if sys.waits w = some c then some (sys.woken w :: ts) else (wakeFirst c ts).map (w :: ·)

variable (sys) in
/-- The thread at position `i` moves on, and comes first. -/
def move (i : Nat) (ts : List L) (s : S) : Option (List L × S) :=
  match ts.drop i with
  | [] => none
  | l :: rest =>
    let others := rest ++ ts.take i
    match sys.alive s, sys.act l s, sys.notifiesOne l, sys.notifiesAll l with
    | false, _, _, _ => none
    | true, some (l', s', created), _, _ => some (l' :: (created ++ others), s')
    | true, none, some (c, l'), _ => some (l' :: (sys.wakeFirst c others).getD others, s)
    | true, none, none, some (c, l') => some (l' :: others.map (sys.wake c), s)
    | true, none, none, none => none

variable (sys) in
def runs : List Nat → List L → S → Option (List L × S)
  | [], ts, s => some (ts, s)
  | i :: schedule, ts, s => (sys.move i ts s).bind fun (ts', s') => runs schedule ts' s'

theorem wakeFirst_some {c : C} {ts ts' : List L} (h : sys.wakeFirst c ts = some ts') :
    ∃ (w : L) (rest : Multiset L), sys.waits w = some c ∧ (ts : Multiset L) = w ::ₘ rest ∧
      (ts' : Multiset L) = sys.woken w ::ₘ rest := by
  induction ts generalizing ts' with
  | nil => cases h
  | cons w ts ih =>
    rw [wakeFirst] at h
    split at h
    · cases h
      exact ⟨w, ts, ‹_›, rfl, rfl⟩
    · obtain ⟨ts₁, hts₁, rfl⟩ := Option.map_eq_some_iff.mp h
      obtain ⟨v, rest, hv, hts, hts'⟩ := ih hts₁
      refine ⟨v, w ::ₘ rest, hv, ?_, ?_⟩
      · rw [← Multiset.cons_coe, hts, Multiset.cons_swap]
      · rw [← Multiset.cons_coe, hts', Multiset.cons_swap]

theorem wakeFirst_none {c : C} {ts : List L} (h : sys.wakeFirst c ts = none) :
    ∀ w ∈ ts, sys.waits w ≠ some c := by
  induction ts with
  | nil => exact fun w hw => absurd hw List.not_mem_nil
  | cons w ts ih =>
    rw [wakeFirst] at h
    split at h
    · cases h
    · rename_i hw
      have hts := ih (Option.map_eq_none_iff.mp h)
      intro v hv
      obtain rfl | hv := List.mem_cons.mp hv
      · exact hw
      · exact hts v hv

theorem step_of_move {i : Nat} {ts ts' : List L} {s s' : S}
    (h : sys.move i ts s = some (ts', s')) : sys.Step ⟨ts, s⟩ ⟨ts', s'⟩ := by
  rw [move] at h
  split at h
  · cases h
  · rename_i l rest hdrop
    have hts : (ts : Multiset L) = l ::ₘ ((rest ++ ts.take i : List L) : Multiset L) := by
      rw [Multiset.cons_coe, Multiset.coe_eq_coe]
      calc
        ts = ts.take i ++ l :: rest := by rw [← hdrop, List.take_append_drop]
        List.Perm _ (l :: rest ++ ts.take i) := List.perm_append_comm
    rw [hts]
    dsimp only at h
    split at h
    · cases h
    · rename_i halive hact
      cases h
      exact .moves halive (.act hact)
    · rename_i halive hact hone
      cases h
      cases hwake : sys.wakeFirst _ (rest ++ ts.take i) with
      | some woken =>
        obtain ⟨w, others, hw, hold, hnew⟩ := wakeFirst_some hwake
        rw [Option.getD_some, ← Multiset.cons_coe, hold, hnew]
        exact .moves halive (.one hone hw)
      | none =>
        exact .moves halive (.nobody hone fun w hw => wakeFirst_none hwake w hw)
    · rename_i halive hact hone hall
      cases h
      exact .moves halive (.all hall)
    · cases h

theorem reaches_of_runs {schedule : List Nat} {ts ts' : List L} {s s' : S}
    (h : sys.runs schedule ts s = some (ts', s')) : sys.Reaches ⟨ts, s⟩ ⟨ts', s'⟩ := by
  induction schedule generalizing ts s with
  | nil =>
    cases h
    exact .refl
  | cons i schedule ih =>
    obtain ⟨⟨ts₁, s₁⟩, hmove, hruns⟩ := Option.bind_eq_some_iff.mp h
    exact .head (step_of_move hmove) (ih hruns)

end System

/-! ## One system inside another -/

section
variable {L' S' C' : Type}

def Config.map (abs : L → L') (view : S → S') (cfg : Config L S) : Config L' S' :=
  ⟨cfg.threads.map abs, view cfg.shared⟩

/-- Each critical section is one of `spec`, or does not show there; waits and notifications do
not show. -/
structure Simulation [DecidableEq C] [DecidableEq C'] (sys : System L S C) (spec : System L' S' C')
    (abs : L → L') (view : S → S') : Prop where
  alive : ∀ {s}, sys.alive s = true → spec.alive (view s) = true
  act : ∀ {l s l' s' created}, sys.act l s = some (l', s', created) →
    spec.act (abs l) (view s) = some (abs l', view s', created.map abs) ∨
      (abs l' = abs l ∧ view s' = view s ∧ created = [])
  woken : ∀ {w c}, sys.waits w = some c → abs (sys.woken w) = abs w
  one : ∀ {l c l'}, sys.notifiesOne l = some (c, l') → abs l' = abs l
  all : ∀ {l c l'}, sys.notifiesAll l = some (c, l') → abs l' = abs l

variable [DecidableEq C] [DecidableEq C'] {sys : System L S C} {spec : System L' S' C'}
  {abs : L → L'} {view : S → S'}

theorem Simulation.step (h : Simulation sys spec abs view) {a b : Config L S}
    (hstep : sys.Step a b) :
    spec.Step (a.map abs view) (b.map abs view) ∨ b.map abs view = a.map abs view := by
  cases hstep with
  | moves halive hmoves =>
    cases hmoves with
    | act hact =>
      simp only [Config.map, Multiset.map_cons, Multiset.map_add, Multiset.map_coe]
      obtain hspec | ⟨hl, hs, rfl⟩ := h.act hact
      · exact .inl (.moves (h.alive halive) (.act hspec))
      · right
        rw [hl, hs, List.map_nil, Multiset.coe_nil, zero_add]
    | one hone hw =>
      right
      simp only [Config.map, Multiset.map_cons, h.one hone, h.woken hw]
    | nobody hone hw =>
      right
      simp only [Config.map, Multiset.map_cons, h.one hone]
    | @all l l' c s ts hall =>
      right
      have hsame : ∀ w, abs (sys.wake c w) = abs w := by
        intro w
        rw [System.wake]
        split
        · exact h.woken ‹_›
        · rfl
      simp only [Config.map, Multiset.map_cons, Multiset.map_map, Function.comp_def, hsame,
        h.all hall]
  | spurious halive hw =>
    right
    simp only [Config.map, Multiset.map_cons, h.woken hw]

theorem Simulation.reaches (h : Simulation sys spec abs view) {a b : Config L S}
    (hrun : sys.Reaches a b) : spec.Reaches (a.map abs view) (b.map abs view) := by
  induction hrun with
  | refl => exact .refl
  | tail _ hstep ih =>
    obtain hspec | hsame := h.step hstep
    · exact ih.tail hspec
    · rw [hsame]
      exact ih

end

/-! ## Wake-ups that are not lost -/

section
variable [DecidableEq C]

/-- What threads wait for on a condition variable: `demand` counts what there is for them, as long
as `calm` holds. `weight` is 1 for a thread that is awake to take something or about to notify one
that does, and a thread that `owes` will notify all. -/
structure Signal (L S : Type) where
  calm : S → Prop
  demand : S → Nat
  weight : L → Nat
  owes : L → Prop

/-- The program notifies `c` where it has to. -/
structure Signals (sys : System L S C) (c : C) (sig : Signal L S) : Prop where
  sleeps : ∀ {l s l' s' created}, sys.act l s = some (l', s', created) → sys.waits l' = some c →
    sig.calm s' ∧ sig.demand s' = 0
  created : ∀ {l s l' s' created}, sys.act l s = some (l', s', created) → ∀ w ∈ created,
    sys.waits w ≠ some c
  /-- What a section adds to the demand it adds to the weight of its thread. -/
  pays : ∀ {l s l' s' created}, sys.act l s = some (l', s', created) → sys.waits l' ≠ some c →
    sig.calm s → (sig.calm s' ∧ sig.demand s' + sig.weight l ≤ sig.demand s + sig.weight l') ∨
      sig.owes l'
  acting : ∀ {l s l' s' created}, sys.act l s = some (l', s', created) → ¬ sig.owes l
  waiting : ∀ {w c'}, sys.waits w = some c' → ¬ sig.owes w ∧ sys.waits (sys.woken w) = none ∧
    sig.weight w ≤ sig.weight (sys.woken w) ∧
    (c' = c → sig.weight w + 1 ≤ sig.weight (sys.woken w))
  one : ∀ {l c' l'}, sys.notifiesOne l = some (c', l') → ¬ sig.owes l ∧ sys.waits l' = none ∧
    sig.weight l ≤ sig.weight l' + (if c' = c then 1 else 0)
  all : ∀ {l c' l'}, sys.notifiesAll l = some (c', l') → sys.waits l' = none ∧
    sig.weight l ≤ sig.weight l' ∧ (c' ≠ c → sig.owes l → sig.owes l')
  due : ∀ {l}, sig.owes l → sys.notifiesAll l ≠ none

/-- Someone sleeps on `c` only if nothing is there for it that others do not already go for, or
everyone is about to be woken. -/
def Covered (sys : System L S C) (c : C) (sig : Signal L S) (cfg : Config L S) : Prop :=
  (∃ w ∈ cfg.threads, sys.waits w = some c) →
    (sig.calm cfg.shared ∧ sig.demand cfg.shared ≤ (cfg.threads.map sig.weight).sum) ∨
      ∃ l ∈ cfg.threads, sig.owes l

variable {sys : System L S C} {c : C} {sig : Signal L S}

theorem Signals.waits_wake (h : Signals sys c sig) {c' : C} {w : L} :
    sys.waits (sys.wake c' w) = some c → sys.waits w = some c ∧ c' ≠ c := by
  intro hwake
  rw [System.wake] at hwake
  split at hwake
  · rename_i hw
    rw [(h.waiting hw).2.1] at hwake
    cases hwake
  · rename_i hw
    exact ⟨hwake, fun hc => hw (hc ▸ hwake)⟩

theorem Signals.weight_wake (h : Signals sys c sig) (c' : C) (w : L) :
    sig.weight w ≤ sig.weight (sys.wake c' w) := by
  rw [System.wake]
  split
  · rename_i hw
    exact (h.waiting hw).2.2.1
  · exact Nat.le_refl _

theorem Signals.covered_act (h : Signals sys c sig) {l l' : L} {s s' : S}
    {created : List L} {ts : Multiset L} (hact : sys.act l s = some (l', s', created))
    (ha : Covered sys c sig ⟨l ::ₘ ts, s⟩) :
    Covered sys c sig ⟨l' ::ₘ (created + ts), s'⟩ := by
  rintro ⟨w, hw, hwaits⟩
  by_cases hl' : sys.waits l' = some c
  · obtain ⟨hcalm, hdemand⟩ := h.sleeps hact hl'
    exact .inl ⟨hcalm, by simp only [hdemand, Nat.zero_le]⟩
  · have hmem : w ∈ ts := by
      rcases Multiset.mem_cons.mp hw with rfl | hw
      · exact absurd hwaits hl'
      · rcases Multiset.mem_add.mp hw with hw | hw
        · exact absurd hwaits (h.created hact w hw)
        · exact hw
    obtain ⟨hcalm, hdemand⟩ | ⟨m, hm, howes⟩ :=
      ha ⟨w, Multiset.mem_cons_of_mem hmem, hwaits⟩
    · obtain ⟨hcalm', hpays⟩ | howes := h.pays hact hl' hcalm
      · left
        simp only [Multiset.map_cons, Multiset.sum_cons, Multiset.map_add, Multiset.sum_add]
          at hdemand ⊢
        exact ⟨hcalm', by omega⟩
      · exact .inr ⟨l', Multiset.mem_cons_self _ _, howes⟩
    · rcases Multiset.mem_cons.mp hm with rfl | hm
      · exact absurd howes (h.acting hact)
      · exact .inr ⟨m, Multiset.mem_cons_of_mem (Multiset.mem_add.mpr (.inr hm)), howes⟩

theorem Signals.covered_one (h : Signals sys c sig) {l l' w : L} {c' : C} {s : S}
    {ts : Multiset L} (hone : sys.notifiesOne l = some (c', l')) (hw : sys.waits w = some c')
    (ha : Covered sys c sig ⟨l ::ₘ w ::ₘ ts, s⟩) :
    Covered sys c sig ⟨l' ::ₘ sys.woken w ::ₘ ts, s⟩ := by
  rintro ⟨v, hv, hwaits⟩
  obtain ⟨hall, hl', hweight⟩ := h.one hone
  obtain ⟨hallw, hwoken, hle, hlt⟩ := h.waiting hw
  have hmem : v ∈ ts := by
    rcases Multiset.mem_cons.mp hv with rfl | hv
    · rw [hl'] at hwaits
      cases hwaits
    · rcases Multiset.mem_cons.mp hv with rfl | hv
      · rw [hwoken] at hwaits
        cases hwaits
      · exact hv
  obtain ⟨hcalm, hdemand⟩ | ⟨m, hm, howes⟩ :=
    ha ⟨v, Multiset.mem_cons_of_mem (Multiset.mem_cons_of_mem hmem), hwaits⟩
  · left
    simp only [Multiset.map_cons, Multiset.sum_cons] at hdemand ⊢
    refine ⟨hcalm, ?_⟩
    by_cases hc : c' = c
    · rw [if_pos hc] at hweight
      have := hlt hc
      omega
    · rw [if_neg hc] at hweight
      omega
  · rcases Multiset.mem_cons.mp hm with rfl | hm
    · exact absurd howes hall
    · rcases Multiset.mem_cons.mp hm with rfl | hm
      · exact absurd howes hallw
      · exact .inr ⟨m, Multiset.mem_cons_of_mem (Multiset.mem_cons_of_mem hm), howes⟩

theorem Signals.covered_nobody (h : Signals sys c sig) {l l' : L} {c' : C} {s : S}
    {ts : Multiset L} (hone : sys.notifiesOne l = some (c', l'))
    (hw : ∀ w ∈ ts, sys.waits w ≠ some c') (ha : Covered sys c sig ⟨l ::ₘ ts, s⟩) :
    Covered sys c sig ⟨l' ::ₘ ts, s⟩ := by
  rintro ⟨v, hv, hwaits⟩
  obtain ⟨hall, hl', hweight⟩ := h.one hone
  have hmem : v ∈ ts := by
    rcases Multiset.mem_cons.mp hv with rfl | hv
    · rw [hl'] at hwaits
      cases hwaits
    · exact hv
  have hc : c' ≠ c := fun hc => hw v hmem (hc ▸ hwaits)
  rw [if_neg hc] at hweight
  obtain ⟨hcalm, hdemand⟩ | ⟨m, hm, howes⟩ := ha ⟨v, Multiset.mem_cons_of_mem hmem, hwaits⟩
  · left
    simp only [Multiset.map_cons, Multiset.sum_cons] at hdemand ⊢
    exact ⟨hcalm, by omega⟩
  · rcases Multiset.mem_cons.mp hm with rfl | hm
    · exact absurd howes hall
    · exact .inr ⟨m, Multiset.mem_cons_of_mem hm, howes⟩

theorem Signals.covered_all (h : Signals sys c sig) {l l' : L} {c' : C} {s : S}
    {ts : Multiset L} (hall : sys.notifiesAll l = some (c', l'))
    (ha : Covered sys c sig ⟨l ::ₘ ts, s⟩) :
    Covered sys c sig ⟨l' ::ₘ ts.map (sys.wake c'), s⟩ := by
  rintro ⟨v, hv, hwaits⟩
  obtain ⟨hl', hweight, hkeeps⟩ := h.all hall
  obtain ⟨w, hmem, hold, hc⟩ : ∃ w ∈ ts, sys.waits w = some c ∧ c' ≠ c := by
    rcases Multiset.mem_cons.mp hv with rfl | hv
    · rw [hl'] at hwaits
      cases hwaits
    · obtain ⟨w, hw, rfl⟩ := Multiset.mem_map.mp hv
      exact ⟨w, hw, h.waits_wake hwaits⟩
  obtain ⟨hcalm, hdemand⟩ | ⟨m, hm, howes⟩ := ha ⟨w, Multiset.mem_cons_of_mem hmem, hold⟩
  · left
    have hsum : (ts.map sig.weight).sum ≤ ((ts.map (sys.wake c')).map sig.weight).sum := by
      rw [Multiset.map_map]
      exact Multiset.sum_map_le_sum_map _ _ fun w _ => h.weight_wake c' w
    simp only [Multiset.map_cons, Multiset.sum_cons] at hdemand ⊢
    exact ⟨hcalm, by omega⟩
  · rcases Multiset.mem_cons.mp hm with rfl | hm
    · exact .inr ⟨l', Multiset.mem_cons_self _ _, hkeeps hc howes⟩
    · have hwake : sys.wake c' m = m := by
        rw [System.wake, if_neg]
        intro hwaits
        exact (h.waiting hwaits).1 howes
      exact .inr ⟨m, Multiset.mem_cons_of_mem (Multiset.mem_map.mpr ⟨m, hm, hwake⟩), howes⟩

theorem Signals.covered_spurious (h : Signals sys c sig) {w : L} {c' : C} {s : S}
    {ts : Multiset L} (hw : sys.waits w = some c')
    (ha : Covered sys c sig ⟨w ::ₘ ts, s⟩) :
    Covered sys c sig ⟨sys.woken w ::ₘ ts, s⟩ := by
  rintro ⟨v, hv, hwaits⟩
  obtain ⟨hall, hwoken, hle, -⟩ := h.waiting hw
  have hmem : v ∈ ts := by
    rcases Multiset.mem_cons.mp hv with rfl | hv
    · rw [hwoken] at hwaits
      cases hwaits
    · exact hv
  obtain ⟨hcalm, hdemand⟩ | ⟨m, hm, howes⟩ := ha ⟨v, Multiset.mem_cons_of_mem hmem, hwaits⟩
  · left
    simp only [Multiset.map_cons, Multiset.sum_cons] at hdemand ⊢
    exact ⟨hcalm, by omega⟩
  · rcases Multiset.mem_cons.mp hm with rfl | hm
    · exact absurd howes hall
    · exact .inr ⟨m, Multiset.mem_cons_of_mem hm, howes⟩

theorem Signals.step (h : Signals sys c sig) {a b : Config L S}
    (ha : Covered sys c sig a) (hstep : sys.Step a b) :
    Covered sys c sig b := by
  cases hstep with
  | moves halive hmoves =>
    cases hmoves with
    | act hact => exact h.covered_act hact ha
    | one hone hw => exact h.covered_one hone hw ha
    | nobody hone hw => exact h.covered_nobody hone hw ha
    | all hall => exact h.covered_all hall ha
  | spurious halive hw => exact h.covered_spurious hw ha

/-- No wake-up is lost in a run, however its threads interleave. -/
theorem Signals.reaches (h : Signals sys c sig) {a b : Config L S}
    (hrun : sys.Reaches a b) (ha : Covered sys c sig a) :
    Covered sys c sig b :=
  hrun.invariant ha fun _ _ _ => h.step

/-- When nothing moves, whoever sleeps on `c` has nothing to do. -/
theorem Signals.quiet (h : Signals sys c sig) {cfg : Config L S}
    (hcovered : Covered sys c sig cfg) (hquiet : sys.Quiet cfg)
    (hweight : ∀ l ∈ cfg.threads, sig.weight l = 0) {w : L} (hw : w ∈ cfg.threads)
    (hwaits : sys.waits w = some c) : sig.calm cfg.shared ∧ sig.demand cfg.shared = 0 := by
  obtain ⟨hcalm, hdemand⟩ | ⟨l, hl, howes⟩ := hcovered ⟨w, hw, hwaits⟩
  · rw [System.sum_map_eq_zero hweight] at hdemand
    exact ⟨hcalm, Nat.le_zero.mp hdemand⟩
  · exact absurd (hquiet.not_notifiesAll hl) (h.due howes)

end
end Monitor
