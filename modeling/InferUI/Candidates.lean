import InferUI.Cache
import InferUI.Formula

/-!
# The working set of candidates

`CandidateConstraints` of `z3inference.h`. For each view it holds a bound on the rank of the
candidates in use and a cursor below which they were already handed out. A vector indexed by
view is a function of the position.
-/

namespace InferUI
variable {Prob : Type}

structure CandidateConstraints (app : App Prob) (o : Orientation) where
  scorer : ConstraintCache app o
  constraintsAdded : Nat → Nat
  constraintsMaxRank : Nat → Nat
  /-- The rank of the first attribute that anchors a view; the code stops when there is none. -/
  anchors : Nat → Option Nat
  prohibitedConstraints : Nat → Option ConstraintData

namespace CandidateConstraints
variable {app : App Prob} {o : Orientation}

def isProhibitedConstraint (prohibited : Nat → Option ConstraintData) (attr : Attribute Prob) :
    Bool :=
  (prohibited attr.src).any fun data =>
    let matchingSecondary := match attr.tgtSecondary with
      | none => decide (data.secondary = -1)
      | some secondary => decide ((secondary : Int) = data.secondary)
    decide (data.type = attr.type) && decide (data.size = attr.viewSize) &&
      decide (attr.tgtPrimary = data.primary) && matchingSecondary

/-- Whether every target of an attribute is the content frame. -/
def anchorsToRoot (app : App Prob) (attr : Attribute Prob) : Bool :=
  decide (app.idOf attr.tgtPrimary = 0) &&
    (!attr.type.isCenterAnchor || attr.tgtSecondary.any fun r => decide (app.idOf r = 0))

def initAnchor (scorer : ConstraintCache app o) (prohibited : Nat → Option ConstraintData)
    (pos : Nat) : Option Nat :=
  if pos = 0 then some 0
  else (scorer.candidates pos).findIdx? fun attr =>
    scorer.isAllowed attr && !isProhibitedConstraint prohibited attr && anchorsToRoot app attr

/-- The constructor. -/
def ofScorer (scorer : ConstraintCache app o) : CandidateConstraints app o where
  scorer := scorer
  constraintsAdded := fun _ => 0
  constraintsMaxRank := fun _ => 0
  anchors := initAnchor scorer fun _ => none
  prohibitedConstraints := fun _ => none

def increaseRank (c : CandidateConstraints app o) (value : Nat) : CandidateConstraints app o :=
  { c with constraintsMaxRank := fun pos => c.constraintsMaxRank pos + value }

def increaseRankOf (c : CandidateConstraints app o) (pos value : Nat) :
    CandidateConstraints app o :=
  { c with
    constraintsMaxRank :=
      Function.update c.constraintsMaxRank pos (c.constraintsMaxRank pos + value) }

def finishAdding (c : CandidateConstraints app o) : CandidateConstraints app o :=
  { c with constraintsAdded := c.constraintsMaxRank }

def resetAdding (c : CandidateConstraints app o) : CandidateConstraints app o :=
  { c with constraintsAdded := fun _ => 0 }

/-- The loop of `GetAttributes` over `count` ranks from `rank` on. -/
def collect (c : CandidateConstraints app o) (pos : Nat) : Nat → Nat → List (Attribute Prob)
  | 0, _ => []
  | count + 1, rank =>
    match c.scorer.getAttr pos rank with
    | none => []
    | some attr =>
      if !c.scorer.isAllowed attr || isProhibitedConstraint c.prohibitedConstraints attr then
        collect c pos count (rank + 1)
      else if some rank = c.anchors pos then collect c pos count (rank + 1)
      else attr :: collect c pos count (rank + 1)

def anchorAttribute (c : CandidateConstraints app o) (pos : Nat) : Option (Attribute Prob) :=
  (c.anchors pos).bind fun rank => c.scorer.getAttr pos rank

def getAttributes (c : CandidateConstraints app o) (pos : Nat) : List (Attribute Prob) :=
  (if c.constraintsAdded pos = 0 then (c.anchorAttribute pos).toList else []) ++
    c.collect pos (c.constraintsMaxRank pos - c.constraintsAdded pos) (c.constraintsAdded pos)

/-- Everything handed out for a view, counted from the start. -/
def workingSet (c : CandidateConstraints app o) (pos : Nat) : List (Attribute Prob) :=
  c.resetAdding.getAttributes pos

/-- The loop only reads what the cursor and the bounds leave alone. -/
theorem collect_congr {c d : CandidateConstraints app o} (hscorer : d.scorer = c.scorer)
    (hanchors : d.anchors = c.anchors)
    (hprohibited : d.prohibitedConstraints = c.prohibitedConstraints) (pos count rank : Nat) :
    d.collect pos count rank = c.collect pos count rank := by
  induction count generalizing rank with
  | zero => rfl
  | succ count ih => simp only [collect, hscorer, hanchors, hprohibited, ih]

theorem workingSet_eq (c : CandidateConstraints app o) (pos : Nat) :
    c.workingSet pos =
      (c.anchorAttribute pos).toList ++ c.collect pos (c.constraintsMaxRank pos) 0 :=
  congrArg _ (collect_congr (c := c) (d := c.resetAdding) rfl rfl rfl pos _ 0)

theorem getAttributes_eq_workingSet {c : CandidateConstraints app o} {pos : Nat}
    (h : c.constraintsAdded pos = 0) : c.getAttributes pos = c.workingSet pos := by
  rw [workingSet_eq, getAttributes, h]
  rfl

/-! ## The loop of `GetAttributes` -/

theorem collect_sublist (c : CandidateConstraints app o) (pos count rank : Nat) :
    (c.collect pos count rank).Sublist ((c.scorer.candidates pos).drop rank) := by
  induction count generalizing rank with
  | zero => exact List.nil_sublist _
  | succ count ih =>
    rw [collect]
    cases hget : c.scorer.getAttr pos rank with
    | none => exact List.nil_sublist _
    | some attr =>
      have hlt : rank < (c.scorer.candidates pos).length :=
        (List.getElem?_eq_some_iff.mp hget).1
      have hattr : (c.scorer.candidates pos)[rank] = attr :=
        (List.getElem?_eq_some_iff.mp hget).2
      rw [List.drop_eq_getElem_cons hlt, hattr]
      have skip := (ih (rank + 1)).cons attr
      simp only
      split
      · exact skip
      · split
        · exact skip
        · exact (ih (rank + 1)).cons_cons attr

theorem collect_past (c : CandidateConstraints app o) {pos rank : Nat} (count : Nat)
    (h : c.scorer.getAttr pos rank = none) : c.collect pos count rank = [] := by
  cases count with
  | zero => rfl
  | succ count => rw [collect, h]

theorem collect_add (c : CandidateConstraints app o) (pos m n rank : Nat) :
    c.collect pos (m + n) rank = c.collect pos m rank ++ c.collect pos n (rank + m) := by
  induction m generalizing rank with
  | zero => simp [collect]
  | succ m ih =>
    rw [Nat.succ_add_eq_add_succ m n, Nat.add_succ m n, collect, collect]
    cases hget : c.scorer.getAttr pos rank with
    | none =>
      have hlate : c.scorer.getAttr pos (rank + (m + 1)) = none := by
        rw [ConstraintCache.getAttr, List.getElem?_eq_none_iff] at hget ⊢
        omega
      simp [c.collect_past n hlate]
    | some attr =>
      have hrank : rank + (m + 1) = rank + 1 + m := by omega
      simp only [ih, hrank]
      split
      · rfl
      · split <;> rfl

theorem mem_getAttributes {c : CandidateConstraints app o} {pos : Nat} {attr : Attribute Prob}
    (h : attr ∈ c.getAttributes pos) : attr ∈ c.scorer.candidates pos := by
  rw [getAttributes, List.mem_append] at h
  rcases h with h | h
  · split at h
    · rw [Option.mem_toList, anchorAttribute] at h
      obtain ⟨rank, _, hget⟩ := Option.bind_eq_some_iff.mp h
      exact List.mem_of_getElem? hget
    · cases h
  · exact List.mem_of_mem_drop ((c.collect_sublist pos _ _).subset h)

theorem getAttributes_proper {c : CandidateConstraints app o} {pos : Nat} {attr : Attribute Prob}
    (h : attr ∈ c.getAttributes pos) : attr.Proper app.views.length o pos :=
  c.scorer.proper_of_mem (mem_getAttributes h)

/-! ## Widening -/

/-- `d` is `c` after its candidates were handed out and some ranks were then increased. -/
structure Widens (c d : CandidateConstraints app o) : Prop where
  scorer : d.scorer = c.scorer
  anchors : d.anchors = c.anchors
  prohibited : d.prohibitedConstraints = c.prohibitedConstraints
  added : d.constraintsAdded = c.constraintsMaxRank
  rank_le : ∀ pos, c.constraintsMaxRank pos ≤ d.constraintsMaxRank pos

theorem Widens.refl {c : CandidateConstraints app o}
    (h : c.constraintsAdded = c.constraintsMaxRank) : c.Widens c :=
  ⟨rfl, rfl, rfl, h, fun _ => le_rfl⟩

theorem Widens.increaseRankOf {c d : CandidateConstraints app o} (h : c.Widens d)
    (pos value : Nat) : c.Widens (d.increaseRankOf pos value) := by
  refine ⟨h.scorer, h.anchors, h.prohibited, h.added, fun p => ?_⟩
  have := h.rank_le p
  simp only [CandidateConstraints.increaseRankOf, Function.update_apply]
  split
  · rename_i hp
    subst hp
    omega
  · exact this

/-- What is handed out next is exactly what the working set gains. -/
theorem Widens.workingSet {c d : CandidateConstraints app o} (h : c.Widens d) {pos : Nat}
    (hpos : 0 < c.constraintsMaxRank pos) :
    d.workingSet pos = c.workingSet pos ++ d.getAttributes pos := by
  have hle := h.rank_le pos
  have hsplit : d.constraintsMaxRank pos =
      c.constraintsMaxRank pos + (d.constraintsMaxRank pos - c.constraintsMaxRank pos) := by omega
  have hanchor : d.anchorAttribute pos = c.anchorAttribute pos := by
    rw [anchorAttribute, anchorAttribute, h.anchors, h.scorer]
  have hadded : ¬ d.constraintsAdded pos = 0 := by
    rw [h.added]
    omega
  have hcollect := collect_congr h.scorer h.anchors h.prohibited pos
  rw [workingSet_eq, workingSet_eq, getAttributes, if_neg hadded, h.added, hanchor]
  conv_lhs => rw [hsplit, collect_add, hcollect]
  simp

theorem Widens.rank_same {c d : CandidateConstraints app o} (h : c.Widens d) {pos : Nat}
    (hsame : d.constraintsMaxRank pos = c.constraintsMaxRank pos)
    (hpos : 0 < c.constraintsMaxRank pos) : d.getAttributes pos = [] := by
  have hadded : ¬ d.constraintsAdded pos = 0 := by
    rw [h.added]
    omega
  rw [getAttributes, if_neg hadded, h.added, hsame, Nat.sub_self]
  rfl

end CandidateConstraints
end InferUI
