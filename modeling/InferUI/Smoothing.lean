import InferUI.ConstraintModel
import Mathlib.Analysis.SpecialFunctions.Log.Basic

/-!
# Smoothed probabilities

`AttrProbInner` adds one to the count of a value and divides by the number of values that were
counted and of their distinct ones. In exact arithmetic that is a probability as soon as anything
was counted by the counter in question, and a division by zero before.

An exact counter is a `ValueCounter` whose counts never wrap. `CodeRun.exact` says that the code's
counters are the exact ones modulo 2^32, through any training, saving and loading.
-/

namespace InferUI.ConstraintModel
variable {Prob : Type}

/-! ## Counters -/

structure ExactCounter where
  data : Table Value ℕ valueEq
  totalCount : ℕ

namespace ExactCounter

def new : ExactCounter := ⟨.empty, 0⟩

def add (c : ExactCounter) (value : Value) : Option ExactCounter :=
  (c.data.modify value 0 (· + 1)).map fun data => ⟨data, c.totalCount + 1⟩

def getCount (c : ExactCounter) (key : Value) : ℕ := (c.data.find? key).getD 0

def uniqueValues (c : ExactCounter) : ℕ := c.data.size

def denominator (c : ExactCounter) : ℚ := c.uniqueValues + c.totalCount

def prob (c : ExactCounter) (value : Value) : ℚ := (c.getCount value + 1) / c.denominator

/-- The total is the sum of the counts, and nothing is counted zero times. -/
structure Counted (c : ExactCounter) : Prop where
  total : c.totalCount = (c.data.entries.map (·.2)).sum
  positive : ∀ e ∈ c.data.entries, 0 < e.2

theorem new_counted : new.Counted := ⟨rfl, by simp [new, Table.empty]⟩

theorem modifyEntries_positive {k : Value} {entries : List (Value × ℕ)}
    (h : ∀ e ∈ entries, 0 < e.2) :
    ∀ e ∈ Table.modifyEntries valueEq k 0 (· + 1) entries, 0 < e.2 := by
  induction entries with
  | nil => simp [Table.modifyEntries]
  | cons first entries ih =>
    rw [List.forall_mem_cons] at h
    unfold Table.modifyEntries
    split
    · rw [List.forall_mem_cons]
      exact ⟨Nat.succ_pos _, h.2⟩
    · rw [List.forall_mem_cons]
      exact ⟨h.1, ih h.2⟩

theorem modifyEntries_ne_nil {V : Type} (k : Value) (init : V) (f : V → V)
    (entries : List (Value × V)) : Table.modifyEntries valueEq k init f entries ≠ [] := by
  cases entries with
  | nil => simp [Table.modifyEntries]
  | cons first entries =>
    unfold Table.modifyEntries
    split <;> simp

theorem add_spec {c c' : ExactCounter} {value : Value} (h : c.add value = some c') :
    (c.Counted → c'.Counted) ∧ c'.data.entries ≠ [] := by
  obtain ⟨data, hdata, rfl⟩ := Option.map_eq_some_iff.mp h
  unfold Table.modify at hdata
  split at hdata
  · cases hdata
    constructor
    · intro hc
      refine ⟨?_, modifyEntries_positive hc.positive⟩
      rw [Table.sum_modifyEntries, ← hc.total]
    · exact modifyEntries_ne_nil value 0 (· + 1) c.data.entries
  · cases hdata

theorem getCount_le {c : ExactCounter} (h : c.Counted) (key : Value) :
    c.getCount key ≤ c.totalCount := by
  unfold getCount
  cases hfind : c.data.find? key with
  | none => exact Nat.zero_le _
  | some n =>
    obtain ⟨e, he, _, rfl⟩ := (Table.find?_eq_some_iff valueEq_per).mp hfind
    rw [h.total]
    exact List.le_sum_of_mem (List.mem_map_of_mem he)

theorem uniqueValues_le {c : ExactCounter} (h : c.Counted) : c.uniqueValues ≤ c.totalCount := by
  have hsum (entries : List (Value × ℕ)) (hpos : ∀ e ∈ entries, 0 < e.2) :
      entries.length ≤ (entries.map (·.2)).sum := by
    induction entries with
    | nil => exact Nat.zero_le _
    | cons e entries ih =>
      rw [List.forall_mem_cons] at hpos
      have := ih hpos.2
      simp only [List.length_cons, List.map_cons, List.sum_cons]
      omega
  rw [h.total]
  exact hsum _ h.positive

/-- The denominator only vanishes where nothing was counted. -/
theorem denominator_eq_zero_iff {c : ExactCounter} (h : c.Counted) :
    c.denominator = 0 ↔ c.data.entries = [] := by
  have hle := uniqueValues_le h
  constructor
  · intro hzero
    rw [denominator] at hzero
    have hsum : c.uniqueValues + c.totalCount = 0 := by exact_mod_cast hzero
    apply List.length_eq_zero_iff.mp
    exact (Nat.add_eq_zero_iff.mp hsum).1
  · intro hnil
    have htotal := h.total
    rw [hnil] at htotal
    rw [denominator, htotal, uniqueValues, Table.size, hnil]
    simp

theorem prob_bounds {c : ExactCounter} (h : c.Counted) (hne : c.data.entries ≠ []) (key : Value) :
    0 < c.prob key ∧ c.prob key ≤ 1 := by
  have hcount := getCount_le h key
  have hunique : 1 ≤ c.uniqueValues := List.length_pos_of_ne_nil hne
  have hpos : 0 < c.denominator := by
    rw [denominator]
    exact_mod_cast Nat.add_pos_left hunique _
  constructor
  · rw [prob]
    positivity
  · rw [prob, div_le_one hpos, denominator]
    exact_mod_cast (show c.getCount key + 1 ≤ c.uniqueValues + c.totalCount by omega)

end ExactCounter

/-! ## Models -/

/-- A `CountingFeatureModel` with exact counters. -/
structure ExactModel (Prob : Type) where
  counters : List ExactCounter
  propertyToCounter : Sized CInt
  feature : Feature Prob

namespace ExactModel

/-- The constructor; the names of the counters play no part. -/
def new (feature : Feature Prob) (count : ℕ) (propertyToCounter : Sized CInt) : ExactModel Prob :=
  ⟨List.replicate count .new, propertyToCounter, feature⟩

def counterOf (m : ExactModel Prob) (type : ConstraintType) : Option ExactCounter :=
  (counterIndex m.propertyToCounter type).bind fun i => m.counters[i]?

def addAttr (m : ExactModel Prob) (attr : Attribute Prob) (views : List (View Prob)) :
    Option (ExactModel Prob) := do
  let i ← counterIndex m.propertyToCounter attr.type
  let counter ← m.counters[i]?
  let counter ← counter.add (m.feature attr views)
  return { m with counters := m.counters.set i counter }

/-- What saving and loading keeps: all but the order of the entries. -/
structure Reloaded (m m' : ExactModel Prob) : Prop where
  feature : m.feature = m'.feature
  map : m.propertyToCounter = m'.propertyToCounter
  counters : List.Forall₂ (fun c c' : ExactCounter =>
    c.totalCount = c'.totalCount ∧ c.data.entries.Perm c'.data.entries) m.counters m'.counters

/-- The models that come of `start` by calls of `AddAttr`, for attributes of the types of
`history`, and by saving and loading. -/
inductive Run (start : ExactModel Prob) : List ConstraintType → ExactModel Prob → Prop
  | start : Run start [] start
  | add {history : List ConstraintType} {m m' : ExactModel Prob} (attr : Attribute Prob)
      (views : List (View Prob)) :
      Run start history m → m.addAttr attr views = some m' →
        Run start (history ++ [attr.type]) m'
  | reload {history : List ConstraintType} {m m' : ExactModel Prob} :
      Run start history m → m.Reloaded m' → Run start history m'

/-- `AttrProbInner` on the counter of the type of an attribute gives a probability, whose logarithm
is a number and not positive. -/
def WellDefined (m : ExactModel Prob) (attr : Attribute Prob) (views : List (View Prob)) : Prop :=
  ∃ c, m.counterOf attr.type = some c ∧ c.denominator ≠ 0 ∧
    0 < c.prob (m.feature attr views) ∧ c.prob (m.feature attr views) ≤ 1 ∧
    Real.log (c.prob (m.feature attr views)) ≤ 0

/-- What a run keeps: every counter is right, and has counted something exactly when a type that
goes to it was added. -/
structure Trained (start : ExactModel Prob) (history : List ConstraintType) (m : ExactModel Prob) :
    Prop where
  feature : m.feature = start.feature
  map : m.propertyToCounter = start.propertyToCounter
  counted : ∀ c ∈ m.counters, c.Counted
  added : ∀ type ∈ history, ∃ i < m.counters.length,
    counterIndex start.propertyToCounter type = some i
  touched : ∀ i c, m.counters[i]? = some c → (c.data.entries ≠ [] ↔
    ∃ type ∈ history, counterIndex start.propertyToCounter type = some i)

theorem new_trained (feature : Feature Prob) (count : ℕ) (propertyToCounter : Sized CInt) :
    Trained (new feature count propertyToCounter) [] (new feature count propertyToCounter) := by
  have hnew {c : ExactCounter}
      (h : c ∈ (new feature count propertyToCounter : ExactModel Prob).counters) : c = .new :=
    List.eq_of_mem_replicate h
  refine ⟨rfl, rfl, ?_, by simp, ?_⟩
  · intro c hc
    rw [hnew hc]
    exact ExactCounter.new_counted
  · intro i c hc
    rw [hnew (List.mem_of_getElem? hc)]
    simp [ExactCounter.new, Table.empty]

theorem Trained.add {start m m' : ExactModel Prob} {history : List ConstraintType}
    {attr : Attribute Prob} {views : List (View Prob)} (h : Trained start history m)
    (hadd : m.addAttr attr views = some m') : Trained start (history ++ [attr.type]) m' := by
  simp only [addAttr, Option.pure_def, Option.bind_eq_bind, Option.bind_eq_some_iff,
    Option.some.injEq] at hadd
  obtain ⟨i, hi, c, hc, c', hc', rfl⟩ := hadd
  obtain ⟨hkeeps, hne⟩ := ExactCounter.add_spec hc'
  rw [h.map] at hi
  have hlt := (List.getElem?_eq_some_iff.mp hc).1
  refine ⟨h.feature, h.map, ?_, ?_, ?_⟩
  · intro d hd
    rcases List.mem_or_eq_of_mem_set hd with hd | rfl
    · exact h.counted d hd
    · exact hkeeps (h.counted c (List.mem_of_getElem? hc))
  · intro type htype
    rw [List.length_set]
    rcases List.mem_append.mp htype with htype | htype
    · exact h.added type htype
    · obtain rfl := List.mem_singleton.mp htype
      exact ⟨i, hlt, hi⟩
  · intro j d hd
    rw [List.getElem?_set] at hd
    split at hd
    · rename_i hij
      subst hij
      obtain rfl := Option.some.inj hd
      exact ⟨fun _ => ⟨attr.type, by simp, hi⟩, fun _ => hne⟩
    · rename_i hij
      rw [h.touched j d hd]
      constructor
      · rintro ⟨type, htype, hindex⟩
        exact ⟨type, List.mem_append_left _ htype, hindex⟩
      · rintro ⟨type, htype, hindex⟩
        rcases List.mem_append.mp htype with htype | htype
        · exact ⟨type, htype, hindex⟩
        · obtain rfl := List.mem_singleton.mp htype
          exact absurd (Option.some.inj (hi.symm.trans hindex)) hij

theorem Trained.reload {start m m' : ExactModel Prob} {history : List ConstraintType}
    (h : Trained start history m) (hreload : m.Reloaded m') : Trained start history m' := by
  have hback (i : ℕ) (c' : ExactCounter) (hc' : m'.counters[i]? = some c') :
      ∃ c, m.counters[i]? = some c ∧ c.totalCount = c'.totalCount ∧
        c.data.entries.Perm c'.data.entries := by
    rcases getElem?_of_forall₂ hreload.counters i with ⟨_, hnone⟩ | ⟨c, d, hc, hd, hsame⟩
    · cases hnone.symm.trans hc'
    · obtain rfl := Option.some.inj (hd.symm.trans hc')
      exact ⟨c, hc, hsame⟩
  refine ⟨hreload.feature.symm.trans h.feature, hreload.map.symm.trans h.map, ?_, ?_, ?_⟩
  · intro c' hc'
    obtain ⟨i, hi⟩ := List.mem_iff_getElem?.mp hc'
    obtain ⟨c, hc, htotal, hperm⟩ := hback i c' hi
    have hcounted := h.counted c (List.mem_of_getElem? hc)
    refine ⟨?_, fun e he => hcounted.positive e (hperm.mem_iff.mpr he)⟩
    rw [← htotal, hcounted.total]
    exact (hperm.map _).sum_eq
  · rw [← hreload.counters.length_eq]
    exact h.added
  · intro i c' hc'
    obtain ⟨c, hc, _, hperm⟩ := hback i c' hc'
    rw [← h.touched i c hc, Ne, Ne, ← List.length_eq_zero_iff, ← List.length_eq_zero_iff,
      hperm.length_eq]

theorem Run.trained {feature : Feature Prob} {count : ℕ} {propertyToCounter : Sized CInt}
    {history : List ConstraintType} {m : ExactModel Prob}
    (h : Run (new feature count propertyToCounter) history m) :
    Trained (new feature count propertyToCounter) history m := by
  induction h with
  | start => exact new_trained feature count propertyToCounter
  | add attr views _ hadd ih => exact ih.add hadd
  | reload _ hreload ih => exact ih.reload hreload

/-- In every run the probability of an attribute is well defined exactly when an attribute was
added before whose type goes to the same counter. -/
theorem wellDefined_iff_trained {feature : Feature Prob} {count : ℕ}
    {propertyToCounter : Sized CInt} {history : List ConstraintType} {m : ExactModel Prob}
    (h : Run (new feature count propertyToCounter) history m) (attr : Attribute Prob)
    (views : List (View Prob)) :
    m.WellDefined attr views ↔ ∃ type ∈ history,
      counterIndex propertyToCounter type = counterIndex propertyToCounter attr.type := by
  have htrained := h.trained
  have hmap : m.propertyToCounter = propertyToCounter := htrained.map
  constructor
  · rintro ⟨c, hc, hdenominator, _⟩
    obtain ⟨i, hi, hget⟩ := Option.bind_eq_some_iff.mp hc
    have hcounted := htrained.counted c (List.mem_of_getElem? hget)
    rw [Ne, ExactCounter.denominator_eq_zero_iff hcounted] at hdenominator
    obtain ⟨type, htype, hindex⟩ := (htrained.touched i c hget).mp hdenominator
    rw [hmap] at hi
    exact ⟨type, htype, hindex.trans hi.symm⟩
  · rintro ⟨type, htype, hsame⟩
    obtain ⟨i, hlt, hindex⟩ := htrained.added type htype
    have hget := List.getElem?_eq_getElem hlt
    have hcounted := htrained.counted _ (List.getElem_mem hlt)
    have hne := (htrained.touched i _ hget).mpr ⟨type, htype, hindex⟩
    have hcounter : m.counterOf attr.type = some m.counters[i] := by
      rw [counterOf, hmap, ← hsame]
      exact (congrArg (Option.bind · _) hindex).trans hget
    obtain ⟨hpos, hle⟩ := ExactCounter.prob_bounds hcounted hne (m.feature attr views)
    refine ⟨_, hcounter, ?_, hpos, hle, ?_⟩
    · rw [Ne, ExactCounter.denominator_eq_zero_iff hcounted]
      exact hne
    · apply Real.log_nonpos
      · exact_mod_cast hpos.le
      · exact_mod_cast hle

/-- The four counters of a margin model, and the types that go to the first two. -/
def sampleModel : ExactModel Unit :=
  new (fun attr _ => (BitVec.ofInt 32 attr.valuePrimary, 0)) 4
    ⟨[0, 0, 0, 0, 1, 1, 1, 1, 2, 2, 2, 2, 3, 3, 3, 3], by decide⟩

/-- Nothing that is aligned vertically was ever added. -/
def sampleVertical : Attribute Unit := ⟨.t2t, .fixed, 7, 0, 1, 0, none, (), 1 / 2⟩

def sampleHorizontal : ExactModel Unit := (sampleModel.addAttr sampleAttribute []).getD sampleModel

theorem sampleHorizontal_run : Run sampleModel [.l2l] sampleHorizontal :=
  .add sampleAttribute [] .start rfl

theorem wellDefined_sample : sampleHorizontal.WellDefined sampleAttribute [] :=
  (wellDefined_iff_trained sampleHorizontal_run sampleAttribute []).mpr
    ⟨.l2l, by simp, rfl⟩

/-- After any training of one counter, a type of another one divides one by zero. -/
theorem untrained_divides_by_zero :
    ¬ ∀ (history : List ConstraintType) (m : ExactModel Unit), Run sampleModel history m →
      ∀ attr views, m.WellDefined attr views := by
  intro h
  obtain ⟨c, hc, hne, _⟩ := h _ _ sampleHorizontal_run sampleVertical []
  have hnew : c = .new := by
    have : sampleHorizontal.counterOf sampleVertical.type = some .new := rfl
    exact Option.some.inj (hc.symm.trans this)
  rw [hnew] at hne
  exact hne (by simp [ExactCounter.denominator, ExactCounter.uniqueValues, ExactCounter.new,
    Table.size, Table.empty])

end ExactModel

/-! ## The counters of the code -/

/-- The code's counter holds the counts modulo 2^32. -/
structure ExactCounter.Wraps (e : ExactCounter) (c : ValueCounter) : Prop where
  total : c.totalCount = BitVec.ofNat 32 e.totalCount
  entries : c.data.entries = e.data.entries.map (Prod.map id (BitVec.ofNat 32))

structure ExactModel.Wraps (e : ExactModel Prob) (m : CountingFeatureModel Prob) : Prop where
  feature : m.feature = e.feature
  map : m.propertyToCounter = e.propertyToCounter
  counters : List.Forall₂ ExactCounter.Wraps e.counters m.counters.1

/-- The runs of the code: a model is made, trained, and any number of times saved and loaded into
a model with the same feature. -/
inductive CodeRun (feature : Feature Prob) (counterNames : Sized (Sized UInt8))
    (propertyToCounter : Sized CInt) : List ConstraintType → CountingFeatureModel Prob → Prop
  | new : CodeRun feature counterNames propertyToCounter []
      (.new feature counterNames propertyToCounter)
  | add {history : List ConstraintType} {m m' : CountingFeatureModel Prob} (attr : Attribute Prob)
      (views : List (View Prob)) :
      CodeRun feature counterNames propertyToCounter history m →
      m.addAttr attr views = some m' →
      CodeRun feature counterNames propertyToCounter (history ++ [attr.type]) m'
  | reload {history : List ConstraintType} {m m' fresh : CountingFeatureModel Prob}
      {visit : List (Value × CInt) → List (Value × CInt)} {bytes rest : List UInt8} :
      CodeRun feature counterNames propertyToCounter history m →
      (∀ entries, (visit entries).Perm entries) → m.feature = fresh.feature →
      fresh.load (m.save visit ++ bytes) = some (m', rest) →
      CodeRun feature counterNames propertyToCounter history m'

theorem modifyEntries_map {V W : Type} {g : V → W} {f : V → V} {f' : W → W} {init : V} {init' : W}
    (hinit : g init = init') (hf : ∀ v, g (f v) = f' (g v)) (k : Value)
    (entries : List (Value × V)) :
    Table.modifyEntries valueEq k init' f' (entries.map (Prod.map id g)) =
      (Table.modifyEntries valueEq k init f entries).map (Prod.map id g) := by
  induction entries with
  | nil => simp [Table.modifyEntries, hf, hinit]
  | cons e entries ih =>
    rw [List.map_cons, Table.modifyEntries, Table.modifyEntries, ih]
    dsimp only [Prod.map_fst, id_eq]
    split <;> simp [hf]

theorem ofNat_succ (n : ℕ) : BitVec.ofNat 32 (n + 1) = BitVec.ofNat 32 n + 1 :=
  BitVec.ofNat_add n 1

theorem ExactCounter.Wraps.add {e : ExactCounter} {c c' : ValueCounter} {value : Value}
    (h : e.Wraps c) (hadd : c.add value = some c') :
    ∃ e', e.add value = some e' ∧ e'.Wraps c' := by
  obtain ⟨data, hdata, rfl⟩ := Option.map_eq_some_iff.mp hadd
  unfold Table.modify at hdata
  split at hdata
  · rename_i hlt
    cases hdata
    have hentries : Table.modifyEntries valueEq value 0 (· + 1) c.data.entries =
        (Table.modifyEntries valueEq value 0 (· + 1) e.data.entries).map
          (Prod.map id (BitVec.ofNat 32)) := by
      rw [h.entries]
      apply modifyEntries_map
      · rfl
      · exact ofNat_succ
    have hsize : (Table.modifyEntries valueEq value 0 (· + 1) e.data.entries).length <
        2 ^ 64 := by
      rwa [hentries, List.length_map] at hlt
    refine ⟨⟨⟨_, Table.distinct_modifyEntries value 0 (· + 1) e.data.distinct, hsize⟩,
      e.totalCount + 1⟩, ?_, ?_, hentries⟩
    · rw [ExactCounter.add, Table.modify, dif_pos hsize]
      rfl
    · rw [ofNat_succ, ← h.total]
  · cases hdata

theorem ExactModel.Wraps.add {e : ExactModel Prob} {m m' : CountingFeatureModel Prob}
    {attr : Attribute Prob} {views : List (View Prob)} (h : e.Wraps m)
    (hadd : m.addAttr attr views = some m') :
    ∃ e', e.addAttr attr views = some e' ∧ e'.Wraps m' := by
  simp only [CountingFeatureModel.addAttr, Option.pure_def, Option.bind_eq_bind,
    Option.bind_eq_some_iff, Option.some.injEq] at hadd
  obtain ⟨i, hi, c, hc, c', hc', rfl⟩ := hadd
  have hindex : counterIndex e.propertyToCounter attr.type = some i := by
    rw [← h.map]
    exact hi
  rcases getElem?_of_forall₂ h.counters i with ⟨_, hnone⟩ | ⟨ec, d, hec, hd, hwraps⟩
  · cases hnone.symm.trans hc
  · obtain rfl := Option.some.inj (hd.symm.trans hc)
    rw [h.feature] at hc'
    obtain ⟨ec', hadd', hwraps'⟩ := hwraps.add hc'
    refine ⟨{ e with counters := e.counters.set i ec' }, ?_, h.feature, h.map,
      forall₂_set h.counters hwraps' i⟩
    simp [ExactModel.addAttr, hindex, hec, hadd']

/-- A counter that was loaded is the exact one with its entries in another order. -/
theorem ExactCounter.Wraps.same {e : ExactCounter} {c c' : ValueCounter} (h : e.Wraps c)
    (hsame : c.Same c') :
    ∃ e' : ExactCounter, (e.totalCount = e'.totalCount ∧
      e.data.entries.Perm e'.data.entries) ∧ e'.Wraps c' := by
  have hpairs : List.Forall₂ (fun (b : Value × CInt) (a : Value × ℕ) =>
      b = Prod.map id (BitVec.ofNat 32) a) c.data.entries e.data.entries := by
    rw [h.entries, List.forall₂_map_left_iff, List.forall₂_same]
    exact fun _ _ => rfl
  obtain ⟨entries, hentries, hperm⟩ := List.perm_comp_forall₂ hsame.counts.symm hpairs
  have hsymm {a b : Value × ℕ} (h : valueEq a.1 b.1 = false) : valueEq b.1 a.1 = false := by
    by_contra hc
    have := valueEq_per.symm _ _ (by simpa using hc)
    rw [h] at this
    cases this
  have hdistinct : entries.Pairwise fun a b => valueEq a.1 b.1 = false :=
    hperm.symm.pairwise e.data.distinct hsymm
  have hsize : entries.length < 2 ^ 64 := hperm.length_eq ▸ e.data.size_lt
  refine ⟨⟨⟨entries, hdistinct, hsize⟩, e.totalCount⟩, ⟨rfl, hperm.symm⟩,
    hsame.total.symm.trans h.total, ?_⟩
  rw [← List.forall₂_eq_eq_eq, List.forall₂_map_right_iff]
  exact hentries

theorem exists_reloaded {es : List ExactCounter} {cs cs' : List ValueCounter}
    (h : List.Forall₂ ExactCounter.Wraps es cs) (hsame : List.Forall₂ ValueCounter.Same cs cs') :
    ∃ es' : List ExactCounter, List.Forall₂ (fun c c' : ExactCounter =>
      c.totalCount = c'.totalCount ∧ c.data.entries.Perm c'.data.entries) es es' ∧
        List.Forall₂ ExactCounter.Wraps es' cs' := by
  induction h generalizing cs' with
  | nil =>
    cases hsame
    exact ⟨[], .nil, .nil⟩
  | cons hwraps _ ih =>
    cases hsame with
    | cons hc hrest =>
      obtain ⟨es', hreloaded, hall⟩ := ih hrest
      obtain ⟨e', hreload, hwraps'⟩ := hwraps.same hc
      exact ⟨e' :: es', .cons hreload hreloaded, .cons hwraps' hall⟩

theorem ExactModel.Wraps.reload {e : ExactModel Prob} {m m' fresh : CountingFeatureModel Prob}
    {visit : List (Value × CInt) → List (Value × CInt)} {bytes rest : List UInt8} (h : e.Wraps m)
    (hvisit : ∀ entries, (visit entries).Perm entries) (hfeature : m.feature = fresh.feature)
    (hload : fresh.load (m.save visit ++ bytes) = some (m', rest)) :
    ∃ e', e.Reloaded e' ∧ e'.Wraps m' := by
  obtain ⟨loaded, hloaded, hsame⟩ := AttrConstraintModel.load_save hvisit
    (AttrConstraintModel.Shape.counting hfeature) bytes
  rw [AttrConstraintModel.load, AttrConstraintModel.save, hload] at hloaded
  cases hloaded
  cases hsame with
  | counting hfeature' hmap hcounters =>
    obtain ⟨counters, hreloaded, hwraps⟩ := exists_reloaded h.counters hcounters
    exact ⟨⟨counters, e.propertyToCounter, e.feature⟩, ⟨rfl, rfl, hreloaded⟩,
      hfeature'.symm.trans h.feature, hmap.symm.trans h.map, hwraps⟩

/-- Every run of the code is one of an exact model, of which it holds the counts modulo 2^32. -/
theorem CodeRun.exact {feature : Feature Prob} {counterNames : Sized (Sized UInt8)}
    {propertyToCounter : Sized CInt} {history : List ConstraintType}
    {m : CountingFeatureModel Prob}
    (h : CodeRun feature counterNames propertyToCounter history m) :
    ∃ e, ExactModel.Run (.new feature counterNames.1.length propertyToCounter) history e ∧
      e.Wraps m := by
  induction h with
  | new =>
    refine ⟨_, .start, rfl, rfl, ?_⟩
    have hnew (names : List (Sized UInt8)) : List.Forall₂ ExactCounter.Wraps
        (List.replicate names.length .new) (names.map ValueCounter.new) := by
      induction names with
      | nil => exact .nil
      | cons name names ih => exact .cons ⟨rfl, rfl⟩ ih
    exact hnew counterNames.1
  | add attr views _ hadd ih =>
    obtain ⟨e, hrun, hwraps⟩ := ih
    obtain ⟨e', hadd', hwraps'⟩ := hwraps.add hadd
    exact ⟨e', .add attr views hrun hadd', hwraps'⟩
  | reload _ hvisit hfeature hload ih =>
    obtain ⟨e, hrun, hwraps⟩ := ih
    obtain ⟨e', hreload, hwraps'⟩ := hwraps.reload hvisit hfeature hload
    exact ⟨e', .reload hrun hreload, hwraps'⟩

/-! ## The numbers of the code -/

/-- Exact arithmetic in place of that of `double`. -/
noncomputable def realDoubles : Doubles ℝ where
  zero := 0
  one := 1
  ofInt n := n.toInt
  ofSize n := n.toNat
  add := (· + ·)
  mul := (· * ·)
  div := (· / ·)
  log := Real.log

theorem ExactCounter.Wraps.getCount_eq {e : ExactCounter} {c : ValueCounter} (h : e.Wraps c)
    (key : Value) : c.getCount key = BitVec.ofNat 32 (e.getCount key) := by
  have hfind : c.data.find? key = (e.data.find? key).map (BitVec.ofNat 32) := by
    rw [Table.find?, Table.find?, h.entries, List.find?_map, Option.map_map, Option.map_map]
    rfl
  rw [ValueCounter.getCount, ExactCounter.getCount, hfind]
  cases e.data.find? key <;> rfl

theorem toInt_ofNat {n : ℕ} (h : n < 2 ^ 31) : (BitVec.ofNat 32 n).toInt = n := by
  rw [BitVec.toInt_eq_toNat_cond, BitVec.toNat_ofNat]
  omega

/-- As long as no count wraps, the code computes the exact probability. -/
theorem ExactCounter.Wraps.prob_eq {e : ExactCounter} {c : ValueCounter} (h : e.Wraps c)
    (hcounted : e.Counted) (hlt : e.totalCount < 2 ^ 31) (value : Value) :
    c.prob realDoubles value = e.prob value := by
  have hcount := ExactCounter.getCount_le hcounted value
  have hunique := ExactCounter.uniqueValues_le hcounted
  have hsize : c.uniqueValues = e.uniqueValues := by
    rw [ValueCounter.uniqueValues, Table.size, h.entries, List.length_map]
    rfl
  have htotal : (c.totalCount.signExtend 64).toNat = e.totalCount := by
    rw [h.total, BitVec.signExtend_eq_setWidth_of_msb_false, BitVec.toNat_setWidth,
      BitVec.toNat_ofNat]
    · omega
    · rw [BitVec.msb_eq_false_iff_two_mul_lt, BitVec.toNat_ofNat]
      omega
  have hsum : (BitVec.ofNat 64 c.uniqueValues + c.totalCount.signExtend 64).toNat =
      e.uniqueValues + e.totalCount := by
    rw [BitVec.toNat_add, htotal, BitVec.toNat_ofNat, hsize]
    omega
  have hint : (c.getCount value).toInt = e.getCount value := by
    rw [h.getCount_eq, toInt_ofNat (by omega)]
  simp only [ValueCounter.prob, realDoubles, hint, hsum, ExactCounter.prob,
    ExactCounter.denominator]
  push_cast
  rfl

theorem ExactModel.Run.total_le {feature : Feature Prob} {count : ℕ}
    {propertyToCounter : Sized CInt} {history : List ConstraintType} {m : ExactModel Prob}
    (h : Run (new feature count propertyToCounter) history m) :
    ∀ c ∈ m.counters, c.totalCount ≤ history.length := by
  induction h with
  | start =>
    intro c hc
    rw [List.eq_of_mem_replicate hc]
    exact Nat.zero_le _
  | add attr views _ hadd ih =>
    simp only [addAttr, Option.pure_def, Option.bind_eq_bind, Option.bind_eq_some_iff,
      Option.some.injEq] at hadd
    obtain ⟨i, _, c, hc, c', hc', rfl⟩ := hadd
    intro d hd
    rw [List.length_append, List.length_singleton]
    rcases List.mem_or_eq_of_mem_set hd with hd | rfl
    · exact (ih d hd).trans (Nat.le_succ _)
    · obtain ⟨data, _, rfl⟩ := Option.map_eq_some_iff.mp hc'
      exact Nat.succ_le_succ (ih c (List.mem_of_getElem? hc))
  | reload _ hreload ih =>
    intro c' hc'
    obtain ⟨i, hi⟩ := List.mem_iff_getElem?.mp hc'
    rcases getElem?_of_forall₂ hreload.counters i with ⟨_, hnone⟩ | ⟨c, d, hc, hd, htotal, _⟩
    · cases hnone.symm.trans hi
    · obtain rfl := Option.some.inj (hd.symm.trans hi)
      rw [← htotal]
      exact ih c (List.mem_of_getElem? hc)

/-- After fewer than 2^31 calls of `AddAttr` the probabilities of the code, computed exactly, are
those of the exact model. -/
theorem CodeRun.attrProb_eq {feature : Feature Prob} {counterNames : Sized (Sized UInt8)}
    {propertyToCounter : Sized CInt} {history : List ConstraintType}
    {m : CountingFeatureModel Prob}
    (h : CodeRun feature counterNames propertyToCounter history m)
    (hlt : history.length < 2 ^ 31) (sizeProb : Attribute Prob → List (View Prob) → ℝ) :
    ∃ e, ExactModel.Run (.new feature counterNames.1.length propertyToCounter) history e ∧
      ∀ attr views, (AttrConstraintModel.counting m).attrProb realDoubles sizeProb attr views =
        (e.counterOf attr.type).map fun c => ((c.prob (e.feature attr views) : ℚ) : ℝ) := by
  obtain ⟨e, hrun, hwraps⟩ := h.exact
  refine ⟨e, hrun, ?_⟩
  intro attr views
  rw [AttrConstraintModel.attrProb, CountingFeatureModel.counterOf, ExactModel.counterOf,
    ← hwraps.map]
  cases counterIndex m.propertyToCounter attr.type with
  | none => rfl
  | some i =>
    rw [Option.bind_some, Option.bind_some]
    rcases getElem?_of_forall₂ hwraps.counters i with ⟨hnone, hnone'⟩ | ⟨c, d, hc, hd, hcd⟩
    · rw [hnone, hnone']
      rfl
    · have hmem := List.mem_of_getElem? hc
      have htotal := (hrun.total_le c hmem).trans_lt hlt
      rw [hc, hd, Option.map_some, Option.map_some, hwraps.feature,
        hcd.prob_eq (hrun.trained.counted c hmem) htotal]

end InferUI.ConstraintModel
