import InferUI.Merge

/-!
# The order of the merged walk

What `MultiSortedIterator` visits and in which order, with `SetCurrentToEnd` called after
any of the visits. An element is named by its list and its index there, so an element that
occurs twice is visited twice.
-/

namespace InferUI.MultiSortedIterator
variable {α : Type}

/-- The element `values_[list][index]`; `skips` says whether `SetCurrentToEnd` is called
before the next `++`. -/
structure Visit where
  list : Nat
  index : Nat
  skips : Bool
  deriving DecidableEq, Repr

def Visit.place (v : Visit) : Nat × Nat := (v.list, v.index)

def Visit.element (values : List (List α)) (v : Visit) : Option α :=
  peek values (fun _ => v.index) v.list

/-- The visits of a loop up to `end`, for at most `fuel` rounds; `skip n` says whether
`SetCurrentToEnd` is called in round `n`. -/
def visits (gt : α → α → Bool) : Nat → (Nat → Bool) → MultiSortedIterator α → List Visit
  | 0, _, _ => []
  | fuel + 1, skip, it =>
    if it.isEnd then []
    else ⟨it.current, it.top it.current, skip 0⟩ ::
      visits gt fuel (fun n => skip (n + 1)) (it.next gt (skip 0))

/-- What C++ asks of a comparison that sorts. -/
structure StrictWeak (gt : α → α → Bool) : Prop where
  asymm : ∀ x y, gt x y = true → gt y x = false
  incomparable : ∀ x y z, gt x y = false → gt y z = false → gt x z = false

/-- In descending order: no element is greater than one before it. -/
def Descending (gt : α → α → Bool) (list : List α) : Prop :=
  list.Pairwise fun x y => gt y x = false

section Step
variable {gt : α → α → Bool} {it : MultiSortedIterator α} {skip : Bool}

@[simp] theorem values_next : (it.next gt skip).values = it.values := by
  unfold next
  split <;> rfl

/-- Before the end, the cursor of the current list is inside it. -/
theorem top_current_lt (hv : it.Valid gt) (h : it.isEnd = false) :
    it.top it.current < (it.values[it.current]?.getD []).length := by
  obtain ⟨_, x, xs, _, hr⟩ := rest_current hv h
  have := congrArg List.length hr
  simp only [rest, List.length_drop, List.length_cons] at this
  omega

/-- A round moves the cursor of the current list past the visit, or to the end of the list. -/
theorem top_next (hv : it.Valid gt) (h : it.isEnd = false) (i : Nat) :
    (it.next gt skip).top i =
      if i = it.current then
        if skip then (it.values[it.current]?.getD []).length else it.top it.current + 1
      else it.top i := by
  have hlt := top_current_lt hv h
  by_cases hi : i = it.current
  · subst hi
    cases skip with
    | true =>
      simp only [next, advance, setCurrentToEnd, Function.update_self, ↓reduceIte]
      omega
    | false => simp [next, advance]
  · cases skip <;> simp [next, advance, setCurrentToEnd, hi]

theorem isEnd_iff_left (hv : it.Valid gt) : it.isEnd = true ↔ it.left = 0 := by
  rw [isEnd_iff hv, left, Finset.sum_eq_zero_iff]
  constructor
  · intro h i _
    simp [h i]
  · intro h i
    by_cases hi : i < it.values.length
    · exact List.length_eq_zero_iff.mp (h i (Finset.mem_range.mpr hi))
    · simp [rest, List.getElem?_eq_none (Nat.le_of_not_lt hi)]

/-- `++` takes away one element. -/
theorem left_advance_eq (hv : it.Valid gt) (h : it.isEnd = false) :
    (it.advance gt).left + 1 = it.left := by
  obtain ⟨hcur, x, xs, _, hr⟩ := rest_current hv h
  have hmem : it.current ∈ Finset.range it.values.length := Finset.mem_range.mpr hcur
  have hothers : ∑ i ∈ (Finset.range it.values.length).erase it.current,
      ((it.advance gt).rest i).length =
      ∑ i ∈ (Finset.range it.values.length).erase it.current, (it.rest i).length := by
    apply Finset.sum_congr rfl
    intro i hi
    rw [rest_advance, if_neg (Finset.ne_of_mem_erase hi)]
  have hvalues : (it.advance gt).values = it.values := rfl
  rw [left, left, hvalues, ← Finset.sum_erase_add _ _ hmem, ← Finset.sum_erase_add _ _ hmem,
    hothers, rest_advance, if_pos rfl, hr, List.tail_cons, List.length_cons]
  omega

end Step

/-- The walk reaches `end` after one `++` for each element left, and not before. -/
theorem isEnd_iterate {gt : α → α → Bool} {it : MultiSortedIterator α} (hv : it.Valid gt) (k : Nat)
    (hk : k ≤ it.left) : ((advance gt)^[k] it).isEnd = decide (k = it.left) := by
  induction k generalizing it with
  | zero =>
    rw [Function.iterate_zero, id, Bool.eq_iff_iff, isEnd_iff_left hv, decide_eq_true_eq]
    exact eq_comm
  | succ k ih =>
    have hend : it.isEnd = false := by
      rw [← Bool.not_eq_true, isEnd_iff_left hv]
      omega
    have hleft := left_advance_eq hv hend
    rw [Function.iterate_succ_apply, ih (advance_valid hv hend) (by omega)]
    congr 1
    apply propext
    omega

section Visits
variable {gt : α → α → Bool}

/-- No visit goes back behind a cursor. -/
theorem top_le_index (fuel : Nat) (skip : Nat → Bool) {it : MultiSortedIterator α}
    (hv : it.Valid gt) : ∀ v ∈ visits gt fuel skip it, it.top v.list ≤ v.index := by
  induction fuel generalizing it skip with
  | zero =>
    intro v hm
    cases hm
  | succ fuel ih =>
    intro v hm
    rw [visits] at hm
    cases hend : it.isEnd with
    | true => simp [hend] at hm
    | false =>
      rw [hend, if_neg Bool.false_ne_true, List.mem_cons] at hm
      rcases hm with rfl | hm
      · exact Nat.le_refl _
      · have htop := ih _ (hv.next _ hend) v hm
        have hlt := top_current_lt hv hend
        rw [top_next hv hend] at htop
        by_cases hc : v.list = it.current
        · rw [if_pos hc] at htop
          rw [hc]
          split at htop <;> omega
        · rwa [if_neg hc] at htop

/-- Within one list, the visits go up. -/
theorem visits_pairwise (fuel : Nat) (skip : Nat → Bool) {it : MultiSortedIterator α}
    (hv : it.Valid gt) :
    (visits gt fuel skip it).Pairwise fun v w => v.list = w.list → v.index < w.index := by
  induction fuel generalizing it skip with
  | zero => exact List.Pairwise.nil
  | succ fuel ih =>
    rw [visits]
    cases hend : it.isEnd with
    | true => exact List.Pairwise.nil
    | false =>
      refine List.Pairwise.cons (fun w hw hlist => ?_) (ih _ (hv.next _ hend))
      have htop := top_le_index _ _ (hv.next _ hend) w hw
      have hlt := top_current_lt hv hend
      rw [top_next hv hend, if_pos hlist.symm] at htop
      change it.top it.current < w.index
      split at htop <;> omega

/-- At the end nothing is left of any list. -/
theorem exact_at_end {it : MultiSortedIterator α} (hv : it.Valid gt) (hend : it.isEnd = true)
    (i k : Nat) : (∃ b, (⟨i, k, b⟩ : Visit) ∈ ([] : List Visit)) ↔
      it.top i ≤ k ∧ k < (it.values[i]?.getD []).length ∧
        ∀ k' < k, (⟨i, k', true⟩ : Visit) ∉ ([] : List Visit) := by
  have hall := (isEnd_iff hv).mp hend i
  rw [rest, List.drop_eq_nil_iff] at hall
  constructor
  · rintro ⟨_, hm⟩
    cases hm
  · rintro ⟨h1, h2, _⟩
    omega

/-- What is visited of list `i`: all that was left of it, up to the first visit of the list
at which the rest of it is skipped. -/
theorem visits_exact {fuel : Nat} (skip : Nat → Bool) {it : MultiSortedIterator α}
    (hv : it.Valid gt) (hfuel : it.left ≤ fuel) (i k : Nat) :
    (∃ b, ⟨i, k, b⟩ ∈ visits gt fuel skip it) ↔
      it.top i ≤ k ∧ k < (it.values[i]?.getD []).length ∧
        ∀ k' < k, ⟨i, k', true⟩ ∉ visits gt fuel skip it := by
  induction fuel generalizing it skip with
  | zero => exact exact_at_end hv ((isEnd_iff_left hv).mpr (by omega)) i k
  | succ fuel ih =>
    rw [visits]
    cases hend : it.isEnd with
    | true => exact exact_at_end hv hend i k
    | false =>
      have hv' := hv.next (skip 0) hend
      have hleft := hv.left_next (skip 0) hend
      have ih := ih (fun n => skip (n + 1)) hv' (by omega)
      have hlt := top_current_lt hv hend
      have behind := top_le_index fuel (fun n => skip (n + 1)) hv'
      rw [if_neg Bool.false_ne_true]
      generalize visits gt fuel (fun n => skip (n + 1)) (it.next gt (skip 0)) = out at ih behind
      simp only [top_next hv hend, values_next] at ih behind
      by_cases hc : i = it.current
      · subst hc
        rw [if_pos rfl] at ih
        by_cases hk : k = it.top it.current
        · subst hk
          refine ⟨fun _ => ⟨Nat.le_refl _, hlt, fun k' hk' hm => ?_⟩,
            fun _ => ⟨_, List.mem_cons_self⟩⟩
          rcases List.mem_cons.mp hm with he | hm
          · simp only [Visit.mk.injEq] at he
            omega
          · have := behind _ hm
            rw [if_pos rfl] at this
            split at this <;> (simp only at this; omega)
        · have hhead (b : Bool) : (⟨it.current, k, b⟩ : Visit) ∈
              (⟨it.current, it.top it.current, skip 0⟩ :: out : List Visit) ↔
              ⟨it.current, k, b⟩ ∈ out := by
            simp [hk]
          simp only [hhead, ih]
          cases hs : skip 0 with
          | true =>
            rw [if_pos rfl]
            constructor
            · rintro ⟨h1, h2, _⟩
              omega
            · rintro ⟨h1, h2, h3⟩
              exact absurd List.mem_cons_self (h3 _ (by omega))
          | false =>
            rw [if_neg Bool.false_ne_true]
            refine ⟨fun ⟨h1, h2, h3⟩ => ⟨by omega, h2, fun k' hk' hm => ?_⟩,
              fun ⟨h1, h2, h3⟩ => ⟨by omega, h2, fun k' hk' hm => ?_⟩⟩
            · rcases List.mem_cons.mp hm with he | hm
              · simp at he
              · exact h3 k' hk' hm
            · exact h3 k' hk' (List.mem_cons_of_mem _ hm)
      · have hhead (k : Nat) (b : Bool) : (⟨i, k, b⟩ : Visit) ∈
            (⟨it.current, it.top it.current, skip 0⟩ :: out : List Visit) ↔
            ⟨i, k, b⟩ ∈ out := by
          simp [hc]
        rw [if_neg hc] at ih
        simp only [hhead]
        exact ih

end Visits

section Order
variable {gt : α → α → Bool}

/-- The list whose next element none of the others exceeds, and all before it fall short of. -/
def Best (gt : α → α → Bool) (values : List (List α)) (top : Nat → Nat) (i : Nat) : Prop :=
  ∃ x, peek values top i = some x ∧
    ∀ j y, peek values top j = some y → gt y x = false ∧ (j < i → gt x y = true)

theorem StrictWeak.irrefl (h : StrictWeak gt) (x : α) : gt x x = false := by
  by_cases hx : gt x x = true
  · exact h.asymm x x hx
  · simpa using hx

theorem StrictWeak.trans_right (h : StrictWeak gt) {x y z : α} (hxz : gt x z = true)
    (hyz : gt y z = false) : gt x y = true := by
  by_contra hxy
  have := h.incomparable x y z (by simpa using hxy) hyz
  simp [this] at hxz

theorem Best.unique {values : List (List α)} {top : Nat → Nat} {i j : Nat}
    (hi : Best gt values top i) (hj : Best gt values top j) : i = j := by
  obtain ⟨x, hx, hbest⟩ := hi
  obtain ⟨y, hy, hbest'⟩ := hj
  rcases Nat.lt_trichotomy i j with h | h | h
  · have h1 := (hbest j y hy).1
    have h2 := (hbest' i x hx).2 h
    simp [h1] at h2
  · exact h
  · have h1 := (hbest' i x hx).1
    have h2 := (hbest j y hy).2 h
    simp [h1] at h2

/-- The loop of `SetNext`, after `n` rounds. -/
theorem setNext_loop_best (hgt : StrictWeak gt) (values : List (List α)) (top : Nat → Nat)
    (n : Nat) :
    let st := (List.range n).foldl (setNextStep gt values top) (0, true)
    (st = (0, true) ∧ ∀ i < n, peek values top i = none) ∨
      (st.2 = false ∧ st.1 < n ∧ ∃ x, peek values top st.1 = some x ∧
        ∀ j < n, ∀ y, peek values top j = some y →
          gt y x = false ∧ (j < st.1 → gt x y = true)) := by
  induction n with
  | zero => exact Or.inl ⟨rfl, fun i h => absurd h (Nat.not_lt_zero i)⟩
  | succ n ih =>
    simp only [List.range_succ, List.foldl_append, List.foldl_cons, List.foldl_nil] at ih ⊢
    generalize (List.range n).foldl (setNextStep gt values top) (0, true) = st at ih
    have earlier {P : Nat → Prop} (hlt : ∀ j < n, P j) (hn : P n) : ∀ j < n + 1, P j := by
      intro j hj
      rcases Nat.lt_succ_iff_lt_or_eq.mp hj with h | rfl
      · exact hlt j h
      · exact hn
    unfold setNextStep
    cases hp : peek values top n with
    | none =>
      rcases ih with ⟨h, hn⟩ | ⟨h, hlt, x, hx, hbest⟩
      · exact Or.inl ⟨h, earlier hn hp⟩
      · exact Or.inr ⟨h, Nat.lt_succ_of_lt hlt, x, hx, earlier hbest fun y hy => by simp [hp] at hy⟩
    | some y =>
      rcases ih with ⟨h, hn⟩ | ⟨h, hlt, x, hx, hbest⟩
      · simp only [h, Bool.true_or, ↓reduceIte]
        refine Or.inr ⟨trivial, Nat.lt_succ_self n, y, hp,
          earlier (fun j hj z hz => ?_) fun z hz => ?_⟩
        · rw [hn j hj] at hz
          cases hz
        · rw [hp, Option.some.injEq] at hz
          subst hz
          exact ⟨hgt.irrefl y, fun hlt => absurd hlt (Nat.lt_irrefl n)⟩
      · simp only [h, Bool.false_or, hx, Option.any_some]
        cases hyx : gt y x with
        | true =>
          refine Or.inr ⟨rfl, Nat.lt_succ_self n, y, hp,
            earlier (fun j hj z hz => ?_) fun z hz => ?_⟩
          · have hyz := hgt.trans_right hyx (hbest j hj z hz).1
            exact ⟨hgt.asymm y z hyz, fun _ => hyz⟩
          · rw [hp, Option.some.injEq] at hz
            subst hz
            exact ⟨hgt.irrefl y, fun hlt => absurd hlt (Nat.lt_irrefl n)⟩
        | false =>
          refine Or.inr ⟨h, Nat.lt_succ_of_lt hlt, x, hx, earlier hbest fun z hz => ?_⟩
          rw [hp, Option.some.injEq] at hz
          subst hz
          exact ⟨hyx, fun hn => absurd hn (Nat.lt_asymm hlt)⟩

variable {it : MultiSortedIterator α}

/-- The iterator stands on the list that is best at its cursors. -/
theorem current_best (hgt : StrictWeak gt) (hv : it.Valid gt) (h : it.isEnd = false) :
    Best gt it.values it.top it.current := by
  obtain ⟨hcur, x, _, hd, _⟩ := rest_current hv h
  have hsetNext := hv.current_eq
  rw [setNext] at hsetNext
  rcases setNext_loop_best hgt it.values it.top it.values.length with ⟨_, hn⟩ | ⟨_, _, y, hy, hbest⟩
  · have := hn it.current hcur
    rw [deref, this] at hd
    cases hd
  · rw [← hsetNext] at hy hbest
    refine ⟨y, hy, fun j z hz => hbest j ?_ z hz⟩
    by_contra hj
    simp [peek, List.getElem?_eq_none (Nat.le_of_not_lt hj)] at hz

/-- Two walks over the same lists, the second with some lists cut short: where it has not
run out of a list, it is at the same place in it. -/
structure CutShort (it it' : MultiSortedIterator α) : Prop where
  values_eq : it'.values = it.values
  top_eq : ∀ i, it'.top i = it.top i ∨ it'.rest i = []

theorem CutShort.rest_eq_nil {it' : MultiSortedIterator α} (hcut : CutShort it it') {i : Nat}
    (h : it.rest i = []) : it'.rest i = [] := by
  rcases hcut.top_eq i with he | hnil
  · rw [rest, hcut.values_eq, he]
    exact h
  · exact hnil

/-- If the list that the longer walk is on has not been cut, the shorter one is on it too. -/
theorem CutShort.current_eq {it' : MultiSortedIterator α} (hcut : CutShort it it')
    (hgt : StrictWeak gt) (hv : it.Valid gt) (hv' : it'.Valid gt) (h : it.isEnd = false)
    (halive : it'.rest it.current ≠ []) : it'.isEnd = false ∧ it'.current = it.current := by
  have hend' : it'.isEnd = false := by
    rw [← Bool.not_eq_true, isEnd_iff hv']
    exact fun hall => halive (hall _)
  refine ⟨hend', (current_best hgt hv' hend').unique ?_⟩
  obtain ⟨x, hx, hbest⟩ := current_best hgt hv h
  have hpeek (j : Nat) (he : it'.top j = it.top j) :
      peek it'.values it'.top j = peek it.values it.top j := by
    rw [peek, peek, hcut.values_eq, he]
  refine ⟨x, ?_, fun j y hy => hbest j y ?_⟩
  · rw [hpeek _ ((hcut.top_eq _).resolve_right halive)]
    exact hx
  · rcases hcut.top_eq j with he | hnil
    · rwa [← hpeek j he]
    · rw [peek_eq_head?, hnil] at hy
      cases hy

theorem CutShort.visits_eq_nil {it' : MultiSortedIterator α} (hcut : CutShort it it')
    (hv : it.Valid gt) (hv' : it'.Valid gt) (h : it.left = 0) (fuel : Nat) (skip : Nat → Bool) :
    visits gt fuel skip it' = [] := by
  have hall := (isEnd_iff hv).mp ((isEnd_iff_left hv).mpr h)
  have hend' := (isEnd_iff hv').mpr fun i => hcut.rest_eq_nil (hall i)
  cases fuel <;> simp [visits, hend']

/-- Where the list of the longer walk was cut, the shorter walk waits. -/
theorem CutShort.wait (hcut : CutShort it it') (hv : it.Valid gt) (hend : it.isEnd = false)
    (hcurrent : it'.rest it.current = []) : CutShort (it.next gt false) it' := by
  refine ⟨hcut.values_eq.trans values_next.symm, fun i => ?_⟩
  rw [top_next hv hend]
  by_cases hi : i = it.current
  · exact Or.inr (hi ▸ hcurrent)
  · rw [if_neg hi]
    exact hcut.top_eq i

/-- Elsewhere both walks go on, and the shorter one may cut the list. -/
theorem CutShort.next (hcut : CutShort it it') (hv : it.Valid gt) (hv' : it'.Valid gt)
    (hend : it.isEnd = false) (hend' : it'.isEnd = false) (hcur : it'.current = it.current)
    (htop : it'.top it.current = it.top it.current) (skip : Bool) :
    CutShort (it.next gt false) (it'.next gt skip) := by
  refine ⟨by rw [values_next, values_next, hcut.values_eq], fun i => ?_⟩
  rw [top_next hv hend, top_next hv' hend', hcur]
  by_cases hi : i = it.current
  · subst hi
    rw [if_pos rfl, if_pos rfl, if_neg Bool.false_ne_true, htop]
    cases skip with
    | false => exact Or.inl rfl
    | true =>
      right
      rw [rest, values_next, top_next hv' hend', if_pos hcur.symm, if_pos rfl, hcur,
        List.drop_length]
  · rw [if_neg hi, if_neg hi]
    rcases hcut.top_eq i with he | hnil
    · exact Or.inl he
    · right
      rw [rest, values_next, top_next hv' hend', hcur, if_neg hi]
      exact hnil

/-- Skipping changes the order of nothing that is still visited. -/
theorem visits_sublist (hgt : StrictWeak gt) {fuel : Nat} (fuel' : Nat) (skip : Nat → Bool)
    {it' : MultiSortedIterator α} (hv : it.Valid gt) (hv' : it'.Valid gt) (hfuel : it.left ≤ fuel)
    (hcut : CutShort it it') :
    ((visits gt fuel' skip it').map Visit.place).Sublist
      ((visits gt fuel (fun _ => false) it).map Visit.place) := by
  induction fuel generalizing it it' fuel' skip with
  | zero =>
    rw [hcut.visits_eq_nil hv hv' (by omega)]
    exact List.nil_sublist _
  | succ fuel ih =>
    cases hend : it.isEnd with
    | true =>
      rw [hcut.visits_eq_nil hv hv' ((isEnd_iff_left hv).mp hend)]
      exact List.nil_sublist _
    | false =>
      have hleft := hv.left_next false hend
      have hlong : visits gt (fuel + 1) (fun _ => false) it =
          ⟨it.current, it.top it.current, false⟩ ::
            visits gt fuel (fun _ => false) (it.next gt false) := by
        rw [visits, hend, if_neg Bool.false_ne_true]
      rw [hlong, List.map_cons]
      by_cases halive : it'.rest it.current = []
      · -- The list was cut: the shorter walk waits.
        apply List.Sublist.cons
        exact ih _ _ (hv.next _ hend) hv' (by omega) (hcut.wait hv hend halive)
      · obtain ⟨hend', hcur⟩ := hcut.current_eq hgt hv hv' hend halive
        have htop := (hcut.top_eq it.current).resolve_right halive
        cases fuel' with
        | zero => exact List.nil_sublist _
        | succ fuel' =>
          rw [visits, hend', if_neg Bool.false_ne_true, List.map_cons]
          have hplace : Visit.place ⟨it'.current, it'.top it'.current, skip 0⟩ =
              Visit.place ⟨it.current, it.top it.current, false⟩ := by
            rw [Visit.place, Visit.place, hcur, htop]
          rw [hplace]
          apply List.Sublist.cons_cons
          exact ih _ _ (hv.next _ hend) (hv'.next _ hend') (by omega)
            (hcut.next hv hv' hend hend' hcur htop (skip 0))

/-- In lists that descend, no element left exceeds the next one of its own list. -/
theorem Descending.le_peek {values : List (List α)}
    (hgt : StrictWeak gt) (hdesc : ∀ list ∈ values, Descending gt list) {top : Nat → Nat}
    {v : Visit} {y : α} (hy : v.element values = some y) (hv : top v.list ≤ v.index) :
    ∃ x, peek values top v.list = some x ∧ gt y x = false := by
  rw [Visit.element, peek, Option.bind_eq_some_iff] at hy
  obtain ⟨list, hl, hy⟩ := hy
  obtain ⟨hlt, rfl⟩ := List.getElem?_eq_some_iff.mp hy
  refine ⟨list[top v.list], by simp [peek, hl], ?_⟩
  rcases Nat.lt_or_eq_of_le hv with h | h
  · exact List.pairwise_iff_getElem.mp (hdesc list (List.mem_of_getElem? hl)) _ _ _ hlt h
  · simp only [h]
    exact hgt.irrefl _

/-- Over lists that descend the walk descends, and of two elements that tie the one of the
lower list comes first. -/
theorem visits_descending (hgt : StrictWeak gt) (fuel : Nat) (skip : Nat → Bool)
    (hv : it.Valid gt) (hdesc : ∀ list ∈ it.values, Descending gt list) :
    (visits gt fuel skip it).Pairwise fun v w => ∀ x y,
      v.element it.values = some x → w.element it.values = some y →
        gt y x = false ∧ (gt x y = false → v.list ≤ w.list) := by
  induction fuel generalizing it skip with
  | zero => exact List.Pairwise.nil
  | succ fuel ih =>
    rw [visits]
    cases hend : it.isEnd with
    | true => exact List.Pairwise.nil
    | false =>
      have ih := ih (fun n => skip (n + 1)) (hv.next (skip 0) hend) (by rwa [values_next])
      rw [values_next] at ih
      refine List.Pairwise.cons (fun w hw x y hx hy => ?_) ih
      obtain ⟨x', hx', hbest⟩ := current_best hgt hv hend
      obtain rfl : x' = x := Option.some.inj (hx'.symm.trans hx)
      have htop := top_le_index _ _ (hv.next _ hend) w hw
      have hlt := top_current_lt hv hend
      have hbehind : it.top w.list ≤ w.index := by
        rw [top_next hv hend] at htop
        by_cases hc : w.list = it.current
        · rw [if_pos hc] at htop
          rw [hc]
          split at htop <;> omega
        · rwa [if_neg hc] at htop
      obtain ⟨z, hz, hyz⟩ := Descending.le_peek hgt hdesc hy hbehind
      refine ⟨hgt.incomparable y z x' hyz (hbest _ z hz).1, fun htie => ?_⟩
      by_contra hlist
      have hxz := (hbest _ z hz).2 (Nat.lt_of_not_le hlist)
      have := hgt.trans_right hxz hyz
      simp [htie] at this

end Order

/-- For any comparison, the loop visits every element once, list by list in the order of the
list, and reaches `end` after one `++` for each element; `SetCurrentToEnd` leaves out the
rest of the list it is called on and nothing else. When the comparison is a strict weak
order, what is visited keeps its order whatever is skipped, and lists that descend are merged
into one that descends, with ties going to the lower list. -/
theorem merged_walk (gt : α → α → Bool) (values : List (List α)) (hne : values ≠ []) :
    (∀ k ≤ values.flatten.length,
      ((advance gt)^[k] (begin gt values)).isEnd = decide (k = values.flatten.length)) ∧
    ∀ skip : Nat → Bool,
      let out := visits gt values.flatten.length skip (begin gt values)
      (∀ i k, (∃ b, ⟨i, k, b⟩ ∈ out) ↔
        k < (values[i]?.getD []).length ∧ ∀ k' < k, ⟨i, k', true⟩ ∉ out) ∧
      (out.Pairwise fun v w => v.list = w.list → v.index < w.index) ∧
      (StrictWeak gt →
        (out.map Visit.place).Sublist ((visits gt values.flatten.length (fun _ => false)
          (begin gt values)).map Visit.place) ∧
        ((∀ list ∈ values, Descending gt list) →
          out.Pairwise fun v w => ∀ x y, v.element values = some x → w.element values = some y →
            gt y x = false ∧ (gt x y = false → v.list ≤ w.list))) := by
  have hv := begin_valid gt hne
  have hleft := left_begin gt values
  refine ⟨fun k hk => ?_,
    fun skip => ⟨fun i k => ?_, visits_pairwise _ skip hv, fun hgt => ⟨?_, ?_⟩⟩⟩
  · rw [← hleft] at hk ⊢
    exact isEnd_iterate hv k hk
  · rw [visits_exact skip hv hleft.le]
    exact and_iff_right (Nat.zero_le k)
  · exact visits_sublist hgt _ skip hv hv hleft.le ⟨rfl, fun _ => Or.inl rfl⟩
  · exact visits_descending hgt _ skip hv

theorem merged_walk_three_lists :
    [[3, 1], [], [2]] ≠ ([] : List (List Nat)) ∧ StrictWeak (fun x y : Nat => decide (y < x)) ∧
    ((advance fun x y : Nat => decide (y < x))^[3]
      (begin (fun x y => decide (y < x)) [[3, 1], [], [2]])).isEnd = true ∧
    (visits (fun x y : Nat => decide (y < x)) 3 (fun n => decide (n = 0))
      (begin (fun x y => decide (y < x)) [[3, 1], [], [2]])).Pairwise fun v w =>
        v.list = w.list → v.index < w.index :=
  ⟨by decide, ⟨by simp; omega, by simp; omega⟩,
    (merged_walk (fun x y : Nat => decide (y < x)) [[3, 1], [], [2]] (by decide)).1 3 (by decide),
    ((merged_walk (fun x y : Nat => decide (y < x)) [[3, 1], [], [2]] (by decide)).2
      fun n => decide (n = 0)).2.1⟩

/-- `operator>` of a floating point type; `none` is the value that is not a number. -/
def floatGreater : Option Int → Option Int → Bool
  | some x, some y => decide (y < x)
  | _, _ => false

/-- A comparison that is no strict weak order: the merge of two lists in order is not in
order, and skipping the rest of one list swaps the elements of the two others. -/
theorem merged_walk_unordered :
    ((∀ list ∈ [[some 1], [none, some 2]], Descending floatGreater list) ∧
      ¬ Descending floatGreater ((visits floatGreater 3 (fun _ => false)
        (begin floatGreater [[some 1], [none, some 2]])).filterMap
          (Visit.element [[some 1], [none, some 2]]))) ∧
    ¬ ((visits floatGreater 4 (fun n => decide (n = 0))
        (begin floatGreater [[some 3, some 1], [none], [some 2]])).map Visit.place).Sublist
      ((visits floatGreater 4 (fun _ => false)
        (begin floatGreater [[some 3, some 1], [none], [some 2]])).map Visit.place) := by
  unfold Descending
  decide

end InferUI.MultiSortedIterator
