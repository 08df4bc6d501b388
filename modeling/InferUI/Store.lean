import Mathlib.Data.List.Count
import Mathlib.Data.List.Nodup

/-!
# Assertion stores

A solver is a list of assertions over assignments of some type. Besides how stores compose,
this file has the pattern of retractable cardinality constraints: an exactly-one constraint
over a list that grows is asserted again under a fresh activation variable each time, and
only the newest activation variable of each list is assumed.
-/

namespace Store
variable {V : Type*}

def Models (store : List (V → Bool)) (v : V) : Prop := ∀ e ∈ store, e v = true

instance (store : List (V → Bool)) (v : V) : Decidable (Models store v) :=
  inferInstanceAs (Decidable (∀ e ∈ store, e v = true))

def Sat (store : List (V → Bool)) : Prop := ∃ v, Models store v

@[simp] theorem models_nil (v : V) : Models [] v := by
  intro e he
  cases he

@[simp] theorem models_cons {e : V → Bool} {store : List (V → Bool)} {v : V} :
    Models (e :: store) v ↔ e v = true ∧ Models store v := by
  simp [Models]

@[simp] theorem models_append {s t : List (V → Bool)} {v : V} :
    Models (s ++ t) v ↔ Models s v ∧ Models t v := by
  simp only [Models, List.mem_append, or_imp, forall_and]

@[simp] theorem models_flatMap {α : Type*} {xs : List α} {f : α → List (V → Bool)} {v : V} :
    Models (xs.flatMap f) v ↔ ∀ x ∈ xs, Models (f x) v := by
  simp only [Models, List.mem_flatMap]
  constructor
  · intro h x hx e he
    exact h e ⟨x, hx, he⟩
  · rintro h e ⟨x, hx, he⟩
    exact h x hx e he

/-- A loop over a list that also counts. -/
theorem models_flatMap_zipIdx {α : Type*} {xs : List α} (f : α → Nat → List (V → Bool)) {v : V} :
    Models (xs.zipIdx.flatMap fun x => f x.1 x.2) v ↔
      ∀ i x, xs[i]? = some x → Models (f x i) v := by
  rw [models_flatMap]
  constructor
  · intro h i x hx
    exact h (x, i) (List.mk_mem_zipIdx_iff_getElem?.mpr hx)
  · rintro h ⟨x, i⟩ hx
    exact h i x (List.mk_mem_zipIdx_iff_getElem?.mp hx)

@[simp] theorem models_map {α : Type*} {xs : List α} {f : α → V → Bool} {v : V} :
    Models (xs.map f) v ↔ ∀ x ∈ xs, f x v = true := by
  simp [Models]

/-- Assignments that no assertion tells apart model the same stores. -/
theorem models_congr {store : List (V → Bool)} {v w : V} (h : ∀ e ∈ store, e v = e w) :
    Models store v ↔ Models store w := by
  constructor <;> intro hm e he
  · rw [← h e he]
    exact hm e he
  · rw [h e he]
    exact hm e he

/-! ## Exactly one -/

section ExactlyOne
variable {α β : Type*}

/-- The pseudo-Boolean sum of the literals is 1; a literal listed twice counts twice. -/
def exactlyOne (p : α → Bool) (xs : List α) : Bool := decide (xs.countP p = 1)

theorem exactlyOne_iff {p : α → Bool} {xs : List α} :
    exactlyOne p xs = true ↔ ∃ x, xs.filter p = [x] := by
  rw [exactlyOne, decide_eq_true_eq, List.countP_eq_length_filter, List.length_eq_one_iff]

theorem exactlyOne_map {p : β → Bool} {f : α → β} {xs : List α} :
    exactlyOne p (xs.map f) = exactlyOne (p ∘ f) xs := by
  simp [exactlyOne, List.countP_map]

/-- The one member that is true. -/
theorem exactlyOne_member {p : α → Bool} {xs : List α} (h : exactlyOne p xs = true) :
    ∃ x ∈ xs, p x = true ∧ ∀ y ∈ xs, p y = true → y = x := by
  obtain ⟨x, hx⟩ := exactlyOne_iff.mp h
  have mem (y : α) : y ∈ xs ∧ p y = true ↔ y = x := by
    rw [← List.mem_filter, hx, List.mem_singleton]
  refine ⟨x, ((mem x).mpr rfl).1, ((mem x).mpr rfl).2, ?_⟩
  intro y hy hp
  exact (mem y).mp ⟨hy, hp⟩

theorem exactlyOne_cons {p : α → Bool} {x : α} {xs : List α} (hx : p x = true)
    (hxs : ∀ y ∈ xs, ¬ p y = true) : exactlyOne p (x :: xs) = true := by
  rw [exactlyOne, decide_eq_true_eq, List.countP_cons_of_pos hx, List.countP_eq_zero.mpr hxs]

end ExactlyOne

/-! ## Guarded exactly-one constraints -/

/-- The constraint that exactly one of `lits` holds, under generation `gen` of the activation
variable of `key`. -/
structure Guard (Key Lit : Type*) where
  key : Key
  gen : Nat
  lits : List Lit

section Guard
variable {Key Lit Var : Type*}

def Guard.Holds (var : Key → Var) (act : Var → Nat → Bool) (sel : Lit → Bool)
    (guard : Guard Key Lit) : Prop :=
  act (var guard.key) guard.gen = true → exactlyOne sel guard.lits = true

/-- Among the constraints of `history`, those of the current generation speak of the current
lists, and every key has one. -/
structure Tracks (history : List (Guard Key Lit)) (keys : List Key) (gen : Key → Nat)
    (lits : Key → List Lit) : Prop where
  key_mem : ∀ guard ∈ history, guard.key ∈ keys
  gen_le : ∀ guard ∈ history, guard.gen ≤ gen guard.key
  current : ∀ guard ∈ history, guard.gen = gen guard.key → guard.lits = lits guard.key
  asserted : ∀ key ∈ keys, ⟨key, gen key, lits key⟩ ∈ history

/-- The constraints of one round, one for each key. -/
def round (keys : List Key) (gen : Key → Nat) (lits : Key → List Lit) : List (Guard Key Lit) :=
  keys.map fun key => ⟨key, gen key, lits key⟩

theorem mem_round {keys : List Key} {gen : Key → Nat} {lits : Key → List Lit}
    {guard : Guard Key Lit} (h : guard ∈ round keys gen lits) :
    guard.key ∈ keys ∧ guard.gen = gen guard.key ∧ guard.lits = lits guard.key := by
  obtain ⟨key, hk, rfl⟩ := List.mem_map.mp h
  exact ⟨hk, rfl, rfl⟩

theorem forall_round {keys : List Key} {gen : Key → Nat} {lits : Key → List Lit}
    {var : Key → Var} {act : Var → Nat → Bool} {sel : Lit → Bool} :
    (∀ guard ∈ round keys gen lits, guard.Holds var act sel) ↔
      ∀ key ∈ keys, act (var key) (gen key) = true → exactlyOne sel (lits key) = true := by
  simp only [round, List.forall_mem_map, Guard.Holds]

theorem tracks_round (keys : List Key) (gen : Key → Nat) (lits : Key → List Lit) :
    Tracks (round keys gen lits) keys gen lits where
  key_mem _ hg := (mem_round hg).1
  gen_le _ hg := Nat.le_of_eq (mem_round hg).2.1
  current _ hg _ := (mem_round hg).2.2
  asserted key hk := List.mem_map.mpr ⟨key, hk, rfl⟩

/-- Another round keeps the invariant when a list only changes together with its generation. -/
theorem Tracks.round {history : List (Guard Key Lit)} {keys : List Key} {gen gen' : Key → Nat}
    {lits lits' : Key → List Lit} (h : Tracks history keys gen lits)
    (hgen : ∀ key, gen key ≤ gen' key)
    (hlits : ∀ key ∈ keys, gen' key = gen key → lits' key = lits key) :
    Tracks (history ++ Store.round keys gen' lits') keys gen' lits' where
  key_mem guard hg := by
    rcases List.mem_append.mp hg with hg | hg
    · exact h.key_mem guard hg
    · exact (mem_round hg).1
  gen_le guard hg := by
    rcases List.mem_append.mp hg with hg | hg
    · exact Nat.le_trans (h.gen_le guard hg) (hgen guard.key)
    · exact Nat.le_of_eq (mem_round hg).2.1
  current guard hg he := by
    rcases List.mem_append.mp hg with hg | hg
    · have hle := h.gen_le guard hg
      have hle' := hgen guard.key
      have hsame : gen' guard.key = gen guard.key := by omega
      rw [hlits guard.key (h.key_mem guard hg) hsame]
      exact h.current guard hg (by omega)
    · exact (mem_round hg).2.2
  asserted key hk := List.mem_append_right _ (List.mem_map.mpr ⟨key, hk, rfl⟩)

/-- Whatever was asserted before, assuming the newest activation variables amounts to the
exactly-one constraints over the current lists: the stale ones can be switched off. -/
theorem Tracks.activate_iff [DecidableEq Var] {history : List (Guard Key Lit)} {keys : List Key}
    {gen : Key → Nat} {lits : Key → List Lit} (h : Tracks history keys gen lits)
    {var : Key → Var} (hvar : ∀ k ∈ keys, ∀ k' ∈ keys, var k = var k' → k = k')
    (sel : Lit → Bool) :
    (∃ act : Var → Nat → Bool, (∀ key ∈ keys, act (var key) (gen key) = true) ∧
      ∀ guard ∈ history, guard.Holds var act sel) ↔
    ∀ key ∈ keys, exactlyOne sel (lits key) = true := by
  constructor
  · rintro ⟨act, hact, hg⟩ key hk
    exact hg _ (h.asserted key hk) (hact key hk)
  · intro hone
    refine ⟨fun x n => decide (∃ key ∈ keys, var key = x ∧ n = gen key), ?_, ?_⟩
    · intro key hk
      exact decide_eq_true ⟨key, hk, rfl, rfl⟩
    · intro guard hg hact
      obtain ⟨key, hk, hx, hn⟩ := of_decide_eq_true hact
      have hkey : key = guard.key := hvar key hk _ (h.key_mem guard hg) hx
      subst hkey
      rw [h.current guard hg hn]
      exact hone _ hk

end Guard
end Store
