import InferUI.Codec
import InferUI.Layout
import InferUI.ListLemmas

/-!
# The file of a probability model

`counter.h`, `serializeutil.h` and `constraint_model.h`: counters of feature values, how they
are trained, and how they are written to a file and read back. An `int` is 32 bits that wrap, a
`float` is its 32 bits. In which order the entries of a hash table are visited is a parameter,
as is what a feature computes from an attribute. A failing `CHECK` or `fread` is `none`.
-/

namespace InferUI.ConstraintModel
variable {Prob : Type}

abbrev CInt := BitVec 32
abbrev CFloat := BitVec 32

def isNaN (x : CFloat) : Bool := decide (0x7f800000 < x.toNat % 2 ^ 31)

def isZero (x : CFloat) : Bool := decide (x.toNat % 2 ^ 31 = 0)

/-- `==` of two floats: nothing equals a value that is not a number, and zero has two signs. -/
def floatEq (x y : CFloat) : Bool :=
  !isNaN x && !isNaN y && (decide (x = y) || isZero x && isZero y)

/-- `Feature::Value`. -/
abbrev Value := CFloat × CFloat

def valueEq (v w : Value) : Bool := floatEq v.1 w.1 && floatEq v.2 w.2

theorem floatEq_per : Per floatEq where
  symm x y h := by
    simp only [floatEq, Bool.and_eq_true, Bool.or_eq_true, decide_eq_true_eq] at h ⊢
    tauto
  trans x y z h h' := by
    simp only [floatEq, Bool.and_eq_true, Bool.or_eq_true, decide_eq_true_eq] at h h' ⊢
    obtain ⟨⟨hx, _⟩, hxy⟩ := h
    obtain ⟨⟨_, hz⟩, hyz⟩ := h'
    refine ⟨⟨hx, hz⟩, ?_⟩
    rcases hxy with rfl | ⟨hx0, hy0⟩
    · exact hyz
    · rcases hyz with rfl | ⟨_, hz0⟩
      · exact Or.inr ⟨hx0, hy0⟩
      · exact Or.inr ⟨hx0, hz0⟩

theorem valueEq_per : Per valueEq where
  symm v w h := by
    simp only [valueEq, Bool.and_eq_true] at h ⊢
    exact ⟨floatEq_per.symm _ _ h.1, floatEq_per.symm _ _ h.2⟩
  trans u v w h h' := by
    simp only [valueEq, Bool.and_eq_true] at h h' ⊢
    exact ⟨floatEq_per.trans _ _ _ h.1 h'.1, floatEq_per.trans _ _ _ h.2 h'.2⟩

/-! ## Counters -/

abbrev Counts := Table Value CInt valueEq

structure ValueCounter where
  name : Sized UInt8
  data : Counts
  totalCount : CInt

namespace ValueCounter

def new (name : Sized UInt8) : ValueCounter := ⟨name, .empty, 0⟩

/-- `Add` of one more. -/
def add (c : ValueCounter) (value : Value) : Option ValueCounter :=
  (c.data.modify value 0 (· + 1)).map fun data =>
    { c with data := data, totalCount := c.totalCount + 1 }

def getCount (c : ValueCounter) (key : Value) : CInt := (c.data.find? key).getD 0

def uniqueValues (c : ValueCounter) : Nat := c.data.size

/-- The sum of the counts. -/
def sum (c : ValueCounter) : CInt := (c.data.entries.map (·.2)).sum

/-- `total_count_` is what it says. -/
def Balanced (c : ValueCounter) : Prop := c.totalCount = c.sum

/-- The same name, total and counts; the order of a hash table is no part of it. -/
structure Same (c c' : ValueCounter) : Prop where
  name : c.name = c'.name
  total : c.totalCount = c'.totalCount
  counts : c.data.entries.Perm c'.data.entries

theorem new_balanced (name : Sized UInt8) : (new name).Balanced := rfl

theorem add_balanced {c c' : ValueCounter} {value : Value} (h : c.Balanced)
    (hadd : c.add value = some c') : c'.Balanced := by
  obtain ⟨data, hdata, rfl⟩ := Option.map_eq_some_iff.mp hadd
  unfold Table.modify at hdata
  split at hdata
  · cases hdata
    rw [Balanced, sum, Table.sum_modifyEntries]
    exact congrArg (· + 1) h
  · cases hdata

theorem Same.balanced {c c' : ValueCounter} (h : Same c c') (hc : c.Balanced) : c'.Balanced := by
  rw [Balanced, ← h.total, hc, sum, sum]
  exact (h.counts.map _).sum_eq

theorem Same.getCount_eq {c c' : ValueCounter} (h : Same c c') (key : Value) :
    c.getCount key = c'.getCount key := by
  rw [getCount, getCount, Table.find?_perm valueEq_per h.counts]

theorem Same.uniqueValues_eq {c c' : ValueCounter} (h : Same c c') :
    c.uniqueValues = c'.uniqueValues := h.counts.length_eq

end ValueCounter

/-! ## Models -/

/-- What a feature computes from an attribute and the views around it. -/
abbrev Feature (Prob : Type) := Attribute Prob → List (View Prob) → Value

/-- `property_to_counter[type]`, as an index of `counters_`. -/
def counterIndex (propertyToCounter : Sized CInt) (type : ConstraintType) : Option Nat :=
  propertyToCounter.1[type.toIndex]?.map fun n => (n.signExtend 64).toNat

structure CountingFeatureModel (Prob : Type) where
  counters : Sized ValueCounter
  propertyToCounter : Sized CInt
  feature : Feature Prob

namespace CountingFeatureModel

/-- The constructor. -/
def new (feature : Feature Prob) (counterNames : Sized (Sized UInt8))
    (propertyToCounter : Sized CInt) : CountingFeatureModel Prob :=
  ⟨⟨counterNames.1.map .new, by simpa using counterNames.2⟩, propertyToCounter, feature⟩

/-- The counter that a type goes to. -/
def counterOf (m : CountingFeatureModel Prob) (type : ConstraintType) : Option ValueCounter :=
  (counterIndex m.propertyToCounter type).bind fun i => m.counters.1[i]?

def addAttr (m : CountingFeatureModel Prob) (attr : Attribute Prob) (views : List (View Prob)) :
    Option (CountingFeatureModel Prob) := do
  let i ← counterIndex m.propertyToCounter attr.type
  let counter ← m.counters.1[i]?
  let counter ← counter.add (m.feature attr views)
  return { m with counters := ⟨m.counters.1.set i counter, by simpa using m.counters.2⟩ }

end CountingFeatureModel

/-- An `AttrConstraintModel`: the one on sizes has nothing to train or to save. -/
inductive AttrConstraintModel (Prob : Type)
  | size
  | counting (m : CountingFeatureModel Prob)

def AttrConstraintModel.addAttr (attr : Attribute Prob) (views : List (View Prob)) :
    AttrConstraintModel Prob → Option (AttrConstraintModel Prob)
  | size => some size
  | counting m => (m.addAttr attr views).map counting

/-- The models of a `ConstraintModelWrapper`; their weights do not change. -/
abbrev Wrapper (Prob : Type) := List (AttrConstraintModel Prob)

def Wrapper.addAttr (w : Wrapper Prob) (attr : Attribute Prob) (views : List (View Prob)) :
    Option (Wrapper Prob) :=
  w.mapM (AttrConstraintModel.addAttr attr views)

/-- What a constructor of a wrapper adds. -/
inductive Config (Prob : Type)
  | size
  | counting (feature : Feature Prob) (counterNames : Sized (Sized UInt8))
      (propertyToCounter : Sized CInt)

def Config.new : Config Prob → AttrConstraintModel Prob
  | size => .size
  | counting feature names map => .counting (.new feature names map)

/-- The states of a wrapper, from its construction through any calls of `AddAttr`. -/
inductive Reachable (config : List (Config Prob)) : Wrapper Prob → Prop
  | new : Reachable config (config.map Config.new)
  | add {w w' : Wrapper Prob} (attr : Attribute Prob) (views : List (View Prob)) :
      Reachable config w → w.addAttr attr views = some w' → Reachable config w'

/-! ## Files -/

namespace Serialize

def int : Codec CInt := Codec.word 4

def float : Codec CFloat := Codec.word 4

def value : Codec Value := float.pair float

def string : Codec (Sized UInt8) := Codec.byte.sized

/-- `WriteVector` and `ReadVector`. -/
def vector {α : Type} (c : Codec α) : Codec (Sized α) := c.sized

/-- `WriteMap`, with the entries in the order in which they are visited. -/
def writeMap (visit : List (Value × CInt) → List (Value × CInt)) (map : Counts) : List UInt8 :=
  Codec.size.write (BitVec.ofNat 64 map.size) ++ (value.pair int).writeMany (visit map.entries)

/-- The loop of `ReadMap`. -/
def readEntries : Nat → Counts → List UInt8 → Option (Counts × List UInt8)
  | 0, map, bytes => some (map, bytes)
  | n + 1, map, bytes => do
    let (entry, bytes) ← (value.pair int).read bytes
    let map ← map.emplace entry.1 entry.2
    readEntries n map bytes

def readMap (bytes : List UInt8) : Option (Counts × List UInt8) := do
  let (n, bytes) ← Codec.size.read bytes
  readEntries n.toNat .empty bytes

end Serialize

open Serialize

section Save
variable (visit : List (Value × CInt) → List (Value × CInt))

def ValueCounter.save (c : ValueCounter) : List UInt8 :=
  int.write c.totalCount ++ string.write c.name ++ writeMap visit c.data

/-- `LoadOrDie` of a counter; nothing of what it held is kept. -/
def ValueCounter.load (bytes : List UInt8) : Option (ValueCounter × List UInt8) := do
  let (totalCount, bytes) ← int.read bytes
  let (name, bytes) ← string.read bytes
  let (data, bytes) ← readMap bytes
  return (⟨name, data, totalCount⟩, bytes)

/-- `WriteVectorClass`. -/
def writeCounters (counters : Sized ValueCounter) : List UInt8 :=
  Codec.size.write (BitVec.ofNat 64 counters.1.length) ++
    counters.1.flatMap (ValueCounter.save visit)

/-- The loop of `ReadVectorClass`. -/
def readCounterList : Nat → List UInt8 → Option (List ValueCounter × List UInt8)
  | 0, bytes => some ([], bytes)
  | n + 1, bytes => do
    let (counter, bytes) ← ValueCounter.load bytes
    let (counters, bytes) ← readCounterList n bytes
    return (counter :: counters, bytes)

def readCounters (bytes : List UInt8) : Option (Sized ValueCounter × List UInt8) := do
  let (n, bytes) ← Codec.size.read bytes
  let (counters, bytes) ← readCounterList n.toNat bytes
  if h : counters.length < 2 ^ 64 then return (⟨counters, h⟩, bytes) else none

def CountingFeatureModel.save (m : CountingFeatureModel Prob) : List UInt8 :=
  writeCounters visit m.counters ++ (vector int).write m.propertyToCounter

def CountingFeatureModel.load (m : CountingFeatureModel Prob) (bytes : List UInt8) :
    Option (CountingFeatureModel Prob × List UInt8) := do
  let (counters, bytes) ← readCounters bytes
  let (propertyToCounter, bytes) ← (vector int).read bytes
  return ({ m with counters, propertyToCounter }, bytes)

def AttrConstraintModel.save : AttrConstraintModel Prob → List UInt8
  | size => []
  | counting m => m.save visit

def AttrConstraintModel.load : AttrConstraintModel Prob → List UInt8 →
    Option (AttrConstraintModel Prob × List UInt8)
  | size, bytes => some (size, bytes)
  | counting m, bytes => (m.load bytes).map fun read => (counting read.1, read.2)

/-- `SaveOrDie` of a wrapper. -/
def Wrapper.save (w : Wrapper Prob) : List UInt8 := w.flatMap (AttrConstraintModel.save visit)

/-- `LoadOrDie` into a wrapper. -/
def Wrapper.load : Wrapper Prob → List UInt8 → Option (Wrapper Prob × List UInt8)
  | [], bytes => some ([], bytes)
  | model :: models, bytes => do
    let (model, bytes) ← model.load bytes
    let (models, bytes) ← Wrapper.load models bytes
    return (model :: models, bytes)

end Save

/-! ## Probabilities -/

/-- The operations on `double` that the probabilities use. -/
structure Doubles (D : Type) where
  zero : D
  one : D
  ofInt : CInt → D
  ofSize : BitVec 64 → D
  add : D → D → D
  mul : D → D → D
  div : D → D → D
  log : D → D

section Probability
variable {D : Type} (ops : Doubles D) (sizeProb : Attribute Prob → List (View Prob) → D)

/-- `AttrProbInner`: the sum of the size and the total is one of `size_t`. -/
def ValueCounter.prob (c : ValueCounter) (value : Value) : D :=
  ops.div (ops.add (ops.ofInt (c.getCount value)) ops.one)
    (ops.ofSize (BitVec.ofNat 64 c.uniqueValues + c.totalCount.signExtend 64))

def AttrConstraintModel.attrProb (attr : Attribute Prob) (views : List (View Prob)) :
    AttrConstraintModel Prob → Option D
  | size => some (sizeProb attr views)
  | counting m => (m.counterOf attr.type).map fun c => c.prob ops (m.feature attr views)

/-- `AttrProb` of a wrapper with these weights. -/
def Wrapper.attrProb (weights : List D) (w : Wrapper Prob) (attr : Attribute Prob)
    (views : List (View Prob)) : Option D := do
  let probs ← w.mapM (AttrConstraintModel.attrProb ops sizeProb attr views)
  return (probs.zip weights).foldl (fun res p => ops.add res (ops.mul (ops.log p.1) p.2)) ops.zero

end Probability

/-! ## What is loaded -/

section Load
variable {visit : List (Value × CInt) → List (Value × CInt)}

theorem readEntries_write {entries : List (Value × CInt)} (map : Counts) (rest : List UInt8)
    (hdistinct : (map.entries ++ entries).Pairwise fun e e' => valueEq e.1 e'.1 = false)
    (hsize : map.entries.length + entries.length < 2 ^ 64) :
    ∃ map', readEntries entries.length map ((value.pair int).writeMany entries ++ rest) =
      some (map', rest) ∧ map'.entries = map.entries ++ entries := by
  induction entries generalizing map with
  | nil => exact ⟨map, rfl, (List.append_nil _).symm⟩
  | cons entry entries ih =>
    rw [List.length_cons] at hsize
    have hnew (e : Value × CInt) (he : e ∈ map.entries) : valueEq e.1 entry.1 = false :=
      (List.pairwise_append.mp hdistinct).2.2 e he entry List.mem_cons_self
    obtain ⟨map₁, hemplace, hentries⟩ := Table.emplace_new (v := entry.2) hnew (by omega)
    rw [List.append_cons, ← hentries] at hdistinct
    obtain ⟨map', hread, hentries'⟩ := ih map₁ hdistinct (by rw [hentries]; simp; omega)
    refine ⟨map', ?_, by rw [hentries', hentries, ← List.append_cons]⟩
    rw [List.length_cons, readEntries, Codec.writeMany_cons, List.append_assoc,
      (value.pair int).read_write]
    simp [hemplace, hread]

/-- A map comes back with its entries in the order in which they were visited. -/
theorem readMap_writeMap (hvisit : ∀ entries, (visit entries).Perm entries) (map : Counts)
    (rest : List UInt8) :
    ∃ map', readMap (writeMap visit map ++ rest) = some (map', rest) ∧
      map'.entries = visit map.entries := by
  have hlength := (hvisit map.entries).length_eq
  have hsymm : Std.Symm fun e e' : Value × CInt => valueEq e.1 e'.1 = false := ⟨fun e e' h => by
    by_contra hc
    have := valueEq_per.symm _ _ (by simpa using hc)
    simp [h] at this⟩
  have hdistinct : (visit map.entries).Pairwise fun e e' => valueEq e.1 e'.1 = false :=
    (hvisit map.entries).symm.pairwise map.distinct (fun h => hsymm.symm _ _ h)
  obtain ⟨map', hread, hentries⟩ := readEntries_write .empty rest hdistinct
    (by rw [hlength]; simpa [Table.empty] using map.size_lt)
  refine ⟨map', ?_, hentries⟩
  have hsize : (BitVec.ofNat 64 map.size).toNat = (visit map.entries).length := by
    rw [Table.size, BitVec.toNat_ofNat, Nat.mod_eq_of_lt map.size_lt, hlength]
  rw [readMap, writeMap, List.append_assoc, Codec.size.read_write]
  simp [hsize, hread]

theorem ValueCounter.load_save (hvisit : ∀ entries, (visit entries).Perm entries)
    (c : ValueCounter) (rest : List UInt8) :
    ∃ c', ValueCounter.load (c.save visit ++ rest) = some (c', rest) ∧ Same c c' := by
  obtain ⟨data, hread, hentries⟩ := readMap_writeMap hvisit c.data rest
  refine ⟨⟨c.name, data, c.totalCount⟩, ?_, rfl, rfl, hentries ▸ (hvisit _).symm⟩
  rw [load, save, List.append_assoc, List.append_assoc, int.read_write]
  simp [string.read_write, hread]

theorem readCounterList_write (hvisit : ∀ entries, (visit entries).Perm entries)
    (counters : List ValueCounter) (rest : List UInt8) :
    ∃ counters', readCounterList counters.length
        (counters.flatMap (ValueCounter.save visit) ++ rest) = some (counters', rest) ∧
      List.Forall₂ ValueCounter.Same counters counters' := by
  induction counters with
  | nil => exact ⟨[], rfl, .nil⟩
  | cons c counters ih =>
    obtain ⟨counters', hread, hsame⟩ := ih
    obtain ⟨c', hload, hc⟩ :=
      c.load_save hvisit (counters.flatMap (ValueCounter.save visit) ++ rest)
    refine ⟨c' :: counters', ?_, .cons hc hsame⟩
    rw [List.length_cons, readCounterList, List.flatMap_cons, List.append_assoc, hload]
    simp [hread]

theorem readCounters_write (hvisit : ∀ entries, (visit entries).Perm entries)
    (counters : Sized ValueCounter) (rest : List UInt8) :
    ∃ counters', readCounters (writeCounters visit counters ++ rest) = some (counters', rest) ∧
      List.Forall₂ ValueCounter.Same counters.1 counters'.1 := by
  obtain ⟨counters', hread, hsame⟩ := readCounterList_write hvisit counters.1 rest
  have hlt : counters'.length < 2 ^ 64 := hsame.length_eq ▸ counters.2
  have hsize : (BitVec.ofNat 64 counters.1.length).toNat = counters.1.length := by
    rw [BitVec.toNat_ofNat, Nat.mod_eq_of_lt counters.2]
  refine ⟨⟨counters', hlt⟩, ?_, hsame⟩
  rw [readCounters, writeCounters, List.append_assoc, Codec.size.read_write]
  simp only [Option.bind_eq_bind, Option.bind_some, hsize, hread]
  exact dif_pos hlt

/-- Models with the same feature, the same map and the same counters. -/
inductive AttrConstraintModel.Same : AttrConstraintModel Prob → AttrConstraintModel Prob → Prop
  | size : Same size size
  | counting {m m' : CountingFeatureModel Prob} (feature : m.feature = m'.feature)
      (map : m.propertyToCounter = m'.propertyToCounter)
      (counters : List.Forall₂ ValueCounter.Same m.counters.1 m'.counters.1) :
      Same (counting m) (counting m')

/-- Models that only differ in what they were trained with. -/
inductive AttrConstraintModel.Shape : AttrConstraintModel Prob → AttrConstraintModel Prob → Prop
  | size : Shape size size
  | counting {m m' : CountingFeatureModel Prob} (feature : m.feature = m'.feature) :
      Shape (counting m) (counting m')

theorem AttrConstraintModel.load_save (hvisit : ∀ entries, (visit entries).Perm entries)
    {m fresh : AttrConstraintModel Prob} (h : Shape m fresh) (rest : List UInt8) :
    ∃ m', fresh.load (m.save visit ++ rest) = some (m', rest) ∧ Same m m' := by
  cases h with
  | size => exact ⟨.size, rfl, .size⟩
  | @counting m fresh hfeature =>
    obtain ⟨counters, hread, hsame⟩ := readCounters_write hvisit m.counters
      ((vector int).write m.propertyToCounter ++ rest)
    refine ⟨.counting ⟨counters, m.propertyToCounter, fresh.feature⟩, ?_,
      .counting hfeature rfl hsame⟩
    rw [load, CountingFeatureModel.load, save, CountingFeatureModel.save, List.append_assoc, hread]
    simp [(vector int).read_write]

theorem Wrapper.load_save (hvisit : ∀ entries, (visit entries).Perm entries)
    {w fresh : Wrapper Prob} (h : List.Forall₂ AttrConstraintModel.Shape w fresh)
    (rest : List UInt8) :
    ∃ w', Wrapper.load fresh (Wrapper.save visit w ++ rest) = some (w', rest) ∧
      List.Forall₂ AttrConstraintModel.Same w w' := by
  induction h with
  | nil => exact ⟨[], rfl, .nil⟩
  | @cons m freshModel w fresh hm _ ih =>
    obtain ⟨w', hload, hsame⟩ := ih
    obtain ⟨m', hload', hsame'⟩ := AttrConstraintModel.load_save hvisit hm
      (Wrapper.save visit w ++ rest)
    refine ⟨m' :: w', ?_, .cons hsame' hsame⟩
    rw [Wrapper.load, Wrapper.save, List.flatMap_cons, List.append_assoc]
    rw [Wrapper.save] at hload hload'
    simp [hload', hload]

end Load

/-! ## Runs -/

section Runs

/-- The counters of a model. -/
def AttrConstraintModel.counters : AttrConstraintModel Prob → List ValueCounter
  | size => []
  | counting m => m.counters.1

/-- Every total is the sum of its counts. -/
def AttrConstraintModel.Balanced (m : AttrConstraintModel Prob) : Prop :=
  ∀ c ∈ m.counters, c.Balanced

theorem AttrConstraintModel.addAttr_spec {m m' : AttrConstraintModel Prob}
    {attr : Attribute Prob} {views : List (View Prob)} (h : m.addAttr attr views = some m') :
    (∀ fresh, Shape m fresh → Shape m' fresh) ∧ (m.Balanced → m'.Balanced) := by
  cases m with
  | size =>
    rw [addAttr, Option.some.injEq] at h
    subst h
    exact ⟨fun _ hs => hs, id⟩
  | counting m =>
    obtain ⟨trained, hadd, rfl⟩ := Option.map_eq_some_iff.mp h
    simp only [CountingFeatureModel.addAttr, Option.pure_def, Option.bind_eq_bind,
      Option.bind_eq_some_iff, Option.some.injEq] at hadd
    obtain ⟨i, _, counter, hcounter, counter', hnew, rfl⟩ := hadd
    refine ⟨fun fresh hs => ?_, fun hb c hc => ?_⟩
    · cases hs with
      | counting hfeature => exact .counting hfeature
    · rcases List.mem_or_eq_of_mem_set hc with hc | rfl
      · exact hb c hc
      · exact ValueCounter.add_balanced (hb counter (List.mem_of_getElem? hcounter)) hnew

theorem Wrapper.addAttr_spec {w w' : Wrapper Prob} {attr : Attribute Prob}
    {views : List (View Prob)} (h : w.addAttr attr views = some w') :
    (∀ fresh, List.Forall₂ AttrConstraintModel.Shape w fresh →
      List.Forall₂ AttrConstraintModel.Shape w' fresh) ∧
      ((∀ m ∈ w, m.Balanced) → ∀ m ∈ w', m.Balanced) := by
  have hall := mapM_eq_some_iff_forall₂.mp h
  clear h
  induction hall with
  | nil => exact ⟨fun _ hs => hs, id⟩
  | cons hm _ ih =>
    obtain ⟨hshape, hbalanced⟩ := AttrConstraintModel.addAttr_spec hm
    constructor
    · intro fresh hs
      cases hs with
      | cons hs hrest => exact .cons (hshape _ hs) (ih.1 _ hrest)
    · intro hb
      rw [List.forall_mem_cons] at hb ⊢
      exact ⟨hbalanced hb.1, ih.2 hb.2⟩

/-- Training keeps the features and the totals right. -/
theorem Reachable.invariant {config : List (Config Prob)} {w : Wrapper Prob}
    (h : Reachable config w) :
    List.Forall₂ AttrConstraintModel.Shape w (config.map Config.new) ∧
      ∀ m ∈ w, m.Balanced := by
  induction h with
  | new =>
    constructor
    · rw [List.forall₂_same]
      intro m hm
      obtain ⟨c, _, rfl⟩ := List.mem_map.mp hm
      cases c with
      | size => exact .size
      | counting => exact .counting rfl
    · intro m hm c hc
      obtain ⟨config, _, rfl⟩ := List.mem_map.mp hm
      cases config with
      | size => cases hc
      | counting feature names map =>
        obtain ⟨name, _, rfl⟩ := List.mem_map.mp hc
        exact ValueCounter.new_balanced name
  | add attr views _ hadd ih =>
    obtain ⟨hshape, hbalanced⟩ := Wrapper.addAttr_spec hadd
    exact ⟨hshape _ ih.1, hbalanced ih.2⟩

theorem AttrConstraintModel.Same.balanced {m m' : AttrConstraintModel Prob} (h : Same m m')
    (hm : m.Balanced) : m'.Balanced := by
  cases h with
  | size => exact hm
  | counting _ _ counters =>
    intro c' hc'
    obtain ⟨i, hi⟩ := List.mem_iff_getElem?.mp hc'
    rcases getElem?_of_forall₂ counters i with ⟨_, hnone⟩ | ⟨c, _, hc, hsome, hsame⟩
    · cases hnone.symm.trans hi
    · obtain rfl := Option.some.inj (hsome.symm.trans hi)
      exact hsame.balanced (hm c (List.mem_of_getElem? hc))

variable {D : Type} (ops : Doubles D) (sizeProb : Attribute Prob → List (View Prob) → D)

theorem AttrConstraintModel.Same.attrProb_eq {m m' : AttrConstraintModel Prob} (h : Same m m')
    (attr : Attribute Prob) (views : List (View Prob)) :
    m'.attrProb ops sizeProb attr views = m.attrProb ops sizeProb attr views := by
  cases h with
  | size => rfl
  | @counting m m' hfeature hmap hcounters =>
    simp only [attrProb, CountingFeatureModel.counterOf, ← hmap, ← hfeature]
    cases counterIndex m.propertyToCounter attr.type with
    | none => rfl
    | some i =>
      simp only [Option.bind_some]
      rcases getElem?_of_forall₂ hcounters i with ⟨h, h'⟩ | ⟨c, c', h, h', hsame⟩
      · rw [h, h']
      · rw [h, h', Option.map_some, Option.map_some, ValueCounter.prob, ValueCounter.prob,
          hsame.getCount_eq, hsame.uniqueValues_eq, hsame.total]

theorem Wrapper.attrProb_eq {w w' : Wrapper Prob}
    (h : List.Forall₂ AttrConstraintModel.Same w w') (weights : List D) (attr : Attribute Prob)
    (views : List (View Prob)) :
    Wrapper.attrProb ops sizeProb weights w' attr views =
      Wrapper.attrProb ops sizeProb weights w attr views := by
  have hprobs : w'.mapM (AttrConstraintModel.attrProb ops sizeProb attr views) =
      w.mapM (AttrConstraintModel.attrProb ops sizeProb attr views) := by
    induction h with
    | nil => rfl
    | cons hm _ ih => rw [List.mapM_cons, List.mapM_cons, ih, hm.attrProb_eq]
  rw [attrProb, attrProb, hprobs]

end Runs

/-- A wrapper in any state it can be trained into is loaded back from the bytes that it saves,
and from no byte more: the same counters, map and totals, and so the same probabilities. -/
theorem saved_model_loads {config : List (Config Prob)} {w : Wrapper Prob}
    (h : Reachable config w) {visit : List (Value × CInt) → List (Value × CInt)}
    (hvisit : ∀ entries, (visit entries).Perm entries) (rest : List UInt8) :
    ∃ w' : Wrapper Prob,
      Wrapper.load (config.map Config.new) (Wrapper.save visit w ++ rest) = some (w', rest) ∧
      List.Forall₂ AttrConstraintModel.Same w w' ∧
      (∀ m ∈ w', ∀ c ∈ m.counters, c.totalCount = c.sum) ∧
      ∀ (D : Type) (ops : Doubles D) (sizeProb : Attribute Prob → List (View Prob) → D)
        (weights : List D) (attr : Attribute Prob) (views : List (View Prob)),
        Wrapper.attrProb ops sizeProb weights w' attr views =
          Wrapper.attrProb ops sizeProb weights w attr views := by
  obtain ⟨hshape, hbalanced⟩ := h.invariant
  obtain ⟨w', hload, hsame⟩ := Wrapper.load_save hvisit hshape rest
  refine ⟨w', hload, hsame, fun m' hm' => ?_, fun D ops sizeProb weights attr views =>
    Wrapper.attrProb_eq ops sizeProb hsame weights attr views⟩
  obtain ⟨i, hi⟩ := List.mem_iff_getElem?.mp hm'
  rcases getElem?_of_forall₂ hsame i with ⟨_, hnone⟩ | ⟨m, _, hm, hsome, hms⟩
  · cases hnone.symm.trans hi
  · obtain rfl := Option.some.inj (hsome.symm.trans hi)
    exact hms.balanced (hbalanced m (List.mem_of_getElem? hm))

section Samples

def sampleConfig : List (Config Unit) :=
  [.counting (fun attr _ => (BitVec.ofInt 32 attr.valuePrimary, 0))
    ⟨[⟨[65], by decide⟩], by decide⟩ ⟨List.replicate 16 0, by decide⟩, .size]

def sampleAttribute : Attribute Unit := ⟨.l2l, .fixed, 7, 0, 1, 0, none, (), 1 / 2⟩

/-- The state after one call of `AddAttr`. -/
def sampleTrained : Wrapper Unit :=
  (Wrapper.addAttr (sampleConfig.map Config.new) sampleAttribute []).getD []

theorem sampleTrained_reachable : Reachable sampleConfig sampleTrained :=
  .add sampleAttribute [] .new rfl

theorem saved_model_loads_trained :
    Reachable sampleConfig sampleTrained ∧
    ∃ w' : Wrapper Unit,
      Wrapper.load (sampleConfig.map Config.new) (Wrapper.save id sampleTrained ++ [1, 2]) =
        some (w', [1, 2]) ∧
      List.Forall₂ AttrConstraintModel.Same sampleTrained w' := by
  obtain ⟨w', hload, hsame, _⟩ :=
    saved_model_loads sampleTrained_reachable (fun entries => List.Perm.refl entries) [1, 2]
  exact ⟨sampleTrained_reachable, w', hload, hsame⟩

end Samples
end InferUI.ConstraintModel
