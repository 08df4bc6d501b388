import Mathlib.Algebra.Order.BigOperators.Group.Finset
import Mathlib.Algebra.BigOperators.Fin

/-!
# The merged walk over several lists

`MultiSortedIterator` of `iterutil.h`. `gt` is the `operator>` of the element type; nothing
is assumed of it. What the iterator has still to visit is `rest`, one suffix per list, and
the lemmas say what each operation does to it.
-/

namespace InferUI
variable {α : Type}

structure MultiSortedIterator (α : Type) where
  values : List (List α)
  top : Nat → Nat
  current : Nat

namespace MultiSortedIterator

/-- `values_[i][top_[i]]`, absent when list `i` has run out. -/
def peek (values : List (List α)) (top : Nat → Nat) (i : Nat) : Option α :=
  values[i]?.bind fun list => list[top i]?

/-- One round of the loop of `SetNext`; the flag is `first`. -/
def setNextStep (gt : α → α → Bool) (values : List (List α)) (top : Nat → Nat)
    (st : Nat × Bool) (i : Nat) : Nat × Bool :=
  match peek values top i with
  | none => st
  | some x => if st.2 || (peek values top st.1).any (gt x) then (i, false) else st

def setNext (gt : α → α → Bool) (values : List (List α)) (top : Nat → Nat) : Nat :=
  ((List.range values.length).foldl (setNextStep gt values top) (0, true)).1

def begin (gt : α → α → Bool) (values : List (List α)) : MultiSortedIterator α :=
  ⟨values, fun _ => 0, setNext gt values fun _ => 0⟩

/-- Equality with the iterator that `end()` builds. -/
def isEnd (it : MultiSortedIterator α) : Bool :=
  decide (it.current = 0) && decide (it.top 0 = (it.values[0]?.getD []).length)

def deref (it : MultiSortedIterator α) : Option α := peek it.values it.top it.current

/-- `it++`. -/
def advance (gt : α → α → Bool) (it : MultiSortedIterator α) : MultiSortedIterator α :=
  let top := Function.update it.top it.current (it.top it.current + 1)
  ⟨it.values, top, setNext gt it.values top⟩

def setCurrentToEnd (it : MultiSortedIterator α) : MultiSortedIterator α :=
  { it with
    top := Function.update it.top it.current ((it.values[it.current]?.getD []).length - 1) }

/-- The elements visited by a walk that never skips, for at most `fuel` steps. -/
def elements (gt : α → α → Bool) : Nat → MultiSortedIterator α → List α
  | 0, _ => []
  | fuel + 1, it =>
    if it.isEnd then []
    else it.deref.toList ++ elements gt fuel (it.advance gt)

/-- What is left of list `i`. -/
def rest (it : MultiSortedIterator α) (i : Nat) : List α := (it.values[i]?.getD []).drop (it.top i)

/-- How many elements are left in all lists. -/
def left (it : MultiSortedIterator α) : Nat :=
  ∑ i ∈ Finset.range it.values.length, (it.rest i).length

theorem peek_eq_head? (it : MultiSortedIterator α) (i : Nat) :
    peek it.values it.top i = (it.rest i).head? := by
  unfold peek rest
  cases h : it.values[i]? <;> simp [List.head?_drop]

/-- The states of an iterator between two rounds of a loop. -/
structure Valid (gt : α → α → Bool) (it : MultiSortedIterator α) : Prop where
  nonempty : it.values ≠ []
  top_le : ∀ i, it.top i ≤ (it.values[i]?.getD []).length
  current_eq : it.current = setNext gt it.values it.top

theorem begin_valid (gt : α → α → Bool) {values : List (List α)} (h : values ≠ []) :
    Valid gt (begin gt values) :=
  ⟨h, fun _ => Nat.zero_le _, rfl⟩

/-- The loop of `SetNext` ends on a list that has an element left, if there is one. -/
theorem setNext_loop (gt : α → α → Bool) (values : List (List α)) (top : Nat → Nat) (n : Nat) :
    let st := (List.range n).foldl (setNextStep gt values top) (0, true)
    (st = (0, true) ∧ ∀ i < n, peek values top i = none) ∨
      (st.2 = false ∧ st.1 < n ∧ (peek values top st.1).isSome = true) := by
  induction n with
  | zero => exact Or.inl ⟨rfl, fun i h => absurd h (Nat.not_lt_zero i)⟩
  | succ n ih =>
    simp only [List.range_succ, List.foldl_append, List.foldl_cons, List.foldl_nil] at ih ⊢
    generalize (List.range n).foldl (setNextStep gt values top) (0, true) = st at ih
    unfold setNextStep
    cases hp : peek values top n with
    | none =>
      rcases ih with ⟨h, hn⟩ | ⟨h, hlt, hs⟩
      · refine Or.inl ⟨h, fun i hi => ?_⟩
        rcases Nat.lt_succ_iff_lt_or_eq.mp hi with hi | rfl
        · exact hn i hi
        · exact hp
      · exact Or.inr ⟨h, Nat.lt_succ_of_lt hlt, hs⟩
    | some x =>
      simp only
      split
      · exact Or.inr ⟨rfl, Nat.lt_succ_self n, by simp [hp]⟩
      · rename_i hc
        rcases ih with ⟨h, _⟩ | ⟨h, hlt, hs⟩
        · simp [h] at hc
        · exact Or.inr ⟨h, by omega, hs⟩

/-- An iterator is at its end exactly when every list has run out. -/
theorem isEnd_iff {gt : α → α → Bool} {it : MultiSortedIterator α} (hv : it.Valid gt) :
    it.isEnd = true ↔ ∀ i, it.rest i = [] := by
  have none_iff (i : Nat) : peek it.values it.top i = none ↔ it.rest i = [] := by
    rw [peek_eq_head?, List.head?_eq_none_iff]
  have outside (i : Nat) (h : it.values.length ≤ i) : it.rest i = [] := by
    simp [rest, List.getElem?_eq_none h]
  have hlen : 0 < it.values.length := List.length_pos_of_ne_nil hv.nonempty
  have loop := setNext_loop gt it.values it.top it.values.length
  simp only [isEnd, Bool.and_eq_true, decide_eq_true_eq]
  have hcur := hv.current_eq
  rw [setNext] at hcur
  constructor
  · rintro ⟨h0, ht⟩ i
    rcases loop with ⟨_, hn⟩ | ⟨_, _, hs⟩
    · rcases Nat.lt_or_ge i it.values.length with hi | hi
      · exact (none_iff i).mp (hn i hi)
      · exact outside i hi
    · rw [← hcur, h0, peek_eq_head?] at hs
      simp [rest, ht] at hs
  · intro hall
    have h0 : it.rest 0 = [] := hall 0
    rw [rest, List.drop_eq_nil_iff] at h0
    refine ⟨?_, Nat.le_antisymm (hv.top_le 0) h0⟩
    rcases loop with ⟨h, _⟩ | ⟨_, _, hs⟩
    · rw [hcur, h]
    · rw [peek_eq_head?, hall] at hs
      cases hs

/-- Before its end, an iterator stands on the first element left of its current list. -/
theorem rest_current {gt : α → α → Bool} {it : MultiSortedIterator α} (hv : it.Valid gt)
    (h : it.isEnd = false) :
    it.current < it.values.length ∧
      ∃ x xs, it.deref = some x ∧ it.rest it.current = x :: xs := by
  have loop := setNext_loop gt it.values it.top it.values.length
  have hcur := hv.current_eq
  rw [setNext] at hcur
  rcases loop with ⟨_, hn⟩ | ⟨_, hlt, hs⟩
  · have : it.isEnd = true := by
      rw [isEnd_iff hv]
      intro i
      rcases Nat.lt_or_ge i it.values.length with hi | hi
      · have := hn i hi
        rwa [peek_eq_head?, List.head?_eq_none_iff] at this
      · simp [rest, List.getElem?_eq_none hi]
    rw [this] at h
    cases h
  · rw [← hcur] at hlt hs
    refine ⟨hlt, ?_⟩
    rw [peek_eq_head?] at hs
    obtain ⟨x, hx⟩ := Option.isSome_iff_exists.mp hs
    obtain ⟨xs, hxs⟩ := List.head?_eq_some_iff.mp hx
    exact ⟨x, xs, by rw [deref, peek_eq_head?, hx], hxs⟩

theorem rest_advance (gt : α → α → Bool) (it : MultiSortedIterator α) (i : Nat) :
    (it.advance gt).rest i = if i = it.current then (it.rest i).tail else it.rest i := by
  unfold rest advance
  by_cases h : i = it.current
  · subst h
    simp [List.tail_drop]
  · simp [h]

theorem advance_valid {gt : α → α → Bool} {it : MultiSortedIterator α} (hv : it.Valid gt)
    (h : it.isEnd = false) : (it.advance gt).Valid gt := by
  refine ⟨hv.nonempty, fun i => ?_, rfl⟩
  obtain ⟨_, x, xs, _, hr⟩ := rest_current hv h
  have hlt : it.top it.current < (it.values[it.current]?.getD []).length := by
    have := congrArg List.length hr
    simp only [rest, List.length_drop, List.length_cons] at this
    omega
  simp only [advance, Function.update_apply]
  split
  · rename_i hi
    subst hi
    omega
  · exact hv.top_le i

/-- Skipping and then moving on drops what is left of the current list, and nothing else. -/
theorem rest_skip {gt : α → α → Bool} {it : MultiSortedIterator α} (hv : it.Valid gt)
    (h : it.isEnd = false) (i : Nat) :
    (it.setCurrentToEnd.advance gt).rest i = if i = it.current then [] else it.rest i := by
  obtain ⟨_, x, xs, _, hr⟩ := rest_current hv h
  have hpos : 0 < (it.values[it.current]?.getD []).length := by
    have := congrArg List.length hr
    simp only [rest, List.length_drop, List.length_cons] at this
    omega
  rw [rest_advance]
  simp only [setCurrentToEnd]
  split
  · rename_i hi
    subst hi
    simp only [rest, Function.update_self, List.tail_drop, ↓reduceIte, List.drop_eq_nil_iff]
    omega
  · rename_i hi
    simp [rest, hi]

theorem skip_valid {gt : α → α → Bool} {it : MultiSortedIterator α} (hv : it.Valid gt)
    (h : it.isEnd = false) : (it.setCurrentToEnd.advance gt).Valid gt := by
  refine ⟨hv.nonempty, fun i => ?_, rfl⟩
  obtain ⟨_, x, xs, _, hr⟩ := rest_current hv h
  have hpos : 0 < (it.values[it.current]?.getD []).length := by
    have := congrArg List.length hr
    simp only [rest, List.length_drop, List.length_cons] at this
    omega
  simp only [advance, setCurrentToEnd, Function.update_apply]
  split
  · rename_i hi
    subst hi
    simp only [↓reduceIte]
    omega
  · exact hv.top_le i

/-- Any step that shortens the current list and leaves the others alone makes progress. -/
theorem left_lt (it it' : MultiSortedIterator α) (hvalues : it'.values = it.values)
    (hcur : it.current < it.values.length)
    (hshorter : (it'.rest it.current).length < (it.rest it.current).length)
    (hothers : ∀ i, i ≠ it.current → it'.rest i = it.rest i) : it'.left < it.left := by
  unfold left
  rw [hvalues]
  apply Finset.sum_lt_sum
  · intro i _
    by_cases h : i = it.current
    · subst h
      exact hshorter.le
    · rw [hothers i h]
  · exact ⟨it.current, Finset.mem_range.mpr hcur, hshorter⟩

theorem left_advance {gt : α → α → Bool} {it : MultiSortedIterator α} (hv : it.Valid gt)
    (h : it.isEnd = false) : (it.advance gt).left < it.left := by
  obtain ⟨hcur, x, xs, _, hr⟩ := rest_current hv h
  apply left_lt it (it.advance gt) rfl hcur
  · simp [rest_advance, hr]
  · intro i hi
    simp [rest_advance, hi]

theorem left_skip {gt : α → α → Bool} {it : MultiSortedIterator α} (hv : it.Valid gt)
    (h : it.isEnd = false) : (it.setCurrentToEnd.advance gt).left < it.left := by
  obtain ⟨hcur, x, xs, _, hr⟩ := rest_current hv h
  apply left_lt it (it.setCurrentToEnd.advance gt) rfl hcur
  · simp [rest_skip hv h, hr]
  · intro i hi
    simp [rest_skip hv h, hi]

/-- A walk with enough fuel visits exactly what was left when it began. -/
theorem mem_elements {gt : α → α → Bool} {fuel : Nat} {it : MultiSortedIterator α}
    (hv : it.Valid gt) (hfuel : it.left ≤ fuel) (x : α) :
    x ∈ elements gt fuel it ↔ ∃ i, x ∈ it.rest i := by
  induction fuel generalizing it with
  | zero =>
    have hend : it.isEnd = true := by
      by_contra hc
      have := left_advance hv (by simpa using hc)
      omega
    have := (isEnd_iff hv).mp hend
    simp [elements, this]
  | succ fuel ih =>
    rw [elements]
    cases hend : it.isEnd with
    | true =>
      have := (isEnd_iff hv).mp hend
      simp [this]
    | false =>
      obtain ⟨_, y, ys, hd, hr⟩ := rest_current hv hend
      have hlt := left_advance hv hend
      simp only [Bool.false_eq_true, ↓reduceIte, hd, Option.toList_some, List.mem_append,
        List.mem_singleton, ih (advance_valid hv hend) (by omega), rest_advance]
      constructor
      · rintro (rfl | ⟨i, hi⟩)
        · exact ⟨it.current, by simp [hr]⟩
        · refine ⟨i, ?_⟩
          split at hi
          · exact List.mem_of_mem_tail hi
          · exact hi
      · rintro ⟨i, hi⟩
        by_cases hc : i = it.current
        · subst hc
          rw [hr, List.mem_cons] at hi
          rcases hi with rfl | hi
          · exact Or.inl rfl
          · exact Or.inr ⟨it.current, by simpa [hr] using hi⟩
        · exact Or.inr ⟨i, by simpa [hc] using hi⟩

theorem rest_begin (gt : α → α → Bool) (values : List (List α)) (i : Nat) :
    (begin gt values).rest i = values[i]?.getD [] := by
  simp [rest, begin]

/-- A walk of the whole of `values` needs one step for each element. -/
theorem left_begin (gt : α → α → Bool) (values : List (List α)) :
    (begin gt values).left = values.flatten.length := by
  unfold left
  simp only [rest_begin]
  rw [List.length_flatten, Finset.sum_range]
  change ∑ i : Fin values.length, _ = _
  rw [← List.sum_ofFn]
  congr 1
  apply List.ext_getElem
  · simp
  · intro i h _
    simp

theorem mem_elements_begin (gt : α → α → Bool) {values : List (List α)} (h : values ≠ []) (x : α) :
    x ∈ elements gt values.flatten.length (begin gt values) ↔ ∃ list ∈ values, x ∈ list := by
  rw [mem_elements (begin_valid gt h) (left_begin gt values).le]
  simp only [rest_begin]
  constructor
  · rintro ⟨i, hi⟩
    cases hv : values[i]? with
    | none => simp [hv] at hi
    | some list => exact ⟨list, List.mem_of_getElem? hv, by simpa [hv] using hi⟩
  · rintro ⟨list, hl, hx⟩
    obtain ⟨i, hi⟩ := List.mem_iff_getElem?.mp hl
    exact ⟨i, by simpa [hi] using hx⟩

/-- What a round of a loop does to the iterator: it goes on, after leaving out what is left of
the current list when that was cut short. -/
def next (gt : α → α → Bool) (it : MultiSortedIterator α) (cut : Bool) :
    MultiSortedIterator α := (if cut then it.setCurrentToEnd else it).advance gt

section
variable {gt : α → α → Bool} {it : MultiSortedIterator α} (hv : it.Valid gt) (cut : Bool)
  (h : it.isEnd = false)
include hv h

theorem Valid.rest_next (i : Nat) :
    (it.next gt cut).rest i =
      if i = it.current then if cut then [] else (it.rest i).tail else it.rest i := by
  cases cut with
  | false => exact rest_advance gt it i
  | true => exact rest_skip hv h i

theorem Valid.next : (it.next gt cut).Valid gt := by
  cases cut with
  | false => exact advance_valid hv h
  | true => exact skip_valid hv h

theorem Valid.left_next : (it.next gt cut).left < it.left := by
  cases cut with
  | false => exact left_advance hv h
  | true => exact left_skip hv h

end
end MultiSortedIterator
end InferUI
