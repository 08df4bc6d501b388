import Mathlib.Data.List.Forall2
import Mathlib.Data.List.Perm.Basic

/-!
# Lists

Facts about reading a list element by element, about two lists side by side and about loops that
only one element passes.
-/

namespace InferUI

/-- Reading each element of a list succeeds when every single read does. -/
theorem mapM_eq_some_iff {α β : Type} {f : α → Option β} {list : List α} {read : List β} :
    list.mapM f = some read ↔ list.map f = read.map some := by
  induction list generalizing read with
  | nil => cases read <;> simp
  | cons x list ih =>
    rw [List.mapM_cons]
    cases hx : f x with
    | none => cases read <;> simp [hx]
    | some y =>
      cases hl : list.mapM f with
      | none =>
        cases read with
        | nil => simp
        | cons z read =>
          have hne : ¬ list.map f = read.map some := fun h => by
            rw [ih.mpr h] at hl
            cases hl
          simp [hne]
      | some ys =>
        have hys := ih.mp hl
        cases read with
        | nil => simp
        | cons z read =>
          simp [hx, hys, List.map_inj_right (f := some) (fun _ _ => Option.some.inj)]

theorem mapM_eq_some_iff_forall₂ {α β : Type} {f : α → Option β} {list : List α}
    {read : List β} :
    list.mapM f = some read ↔ List.Forall₂ (fun a b => f a = some b) list read := by
  rw [mapM_eq_some_iff, ← List.forall₂_eq_eq_eq, List.forall₂_map_left_iff,
    List.forall₂_map_right_iff]

/-- It fails when some element cannot be read. -/
theorem mapM_eq_none_iff {α β : Type} {f : α → Option β} {list : List α} :
    list.mapM f = none ↔ ∃ x ∈ list, f x = none := by
  induction list with
  | nil => simp
  | cons x list ih =>
    rw [List.mapM_cons]
    cases hx : f x with
    | none => simp [hx]
    | some y =>
      cases hl : list.mapM f with
      | none =>
        obtain ⟨z, hz, hfz⟩ := ih.mp hl
        exact ⟨fun _ => ⟨z, List.mem_cons_of_mem x hz, hfz⟩, fun _ => rfl⟩
      | some ys =>
        have hall : ∀ z ∈ list, f z ≠ none := by
          intro z hz hfz
          have := ih.mpr ⟨z, hz, hfz⟩
          rw [hl] at this
          cases this
        refine ⟨fun h => absurd h (by simp), ?_⟩
        rintro ⟨z, hz, hfz⟩
        obtain rfl | hz := List.mem_cons.mp hz
        · rw [hx] at hfz
          cases hfz
        · exact absurd hfz (hall z hz)

/-- Two lists side by side, when what relates a pair depends on its first half only. -/
theorem forall₂_iff_forall {α β : Type} {R S : α → β → Prop} {P : α → Prop} {list : List α}
    {list' : List β} (h : List.Forall₂ S list list')
    (hiff : ∀ a ∈ list, ∀ b, S a b → (R a b ↔ P a)) :
    List.Forall₂ R list list' ↔ ∀ a ∈ list, P a := by
  induction h with
  | nil => simp
  | @cons a b _ _ hab _ ih =>
    rw [List.forall₂_cons, List.forall_mem_cons, hiff a List.mem_cons_self b hab,
      ih fun c hc => hiff c (List.mem_cons_of_mem a hc)]

theorem mapM_congr {α β : Type} {f g : α → Option β} {list : List α}
    (h : ∀ x ∈ list, f x = g x) : list.mapM f = list.mapM g := by
  apply Option.ext
  intro read
  rw [mapM_eq_some_iff, mapM_eq_some_iff, List.map_congr_left h]

/-- What is read from the elements in another order is the same in another order. -/
theorem mapM_perm {α β : Type} {f : α → Option β} {list list' : List α} (hperm : list.Perm list')
    {read : List β} (h : list.mapM f = some read) :
    ∃ read', list'.mapM f = some read' ∧ read'.Perm read := by
  rw [mapM_eq_some_iff_forall₂] at h
  obtain ⟨read', hread, hp⟩ := List.perm_comp_forall₂ hperm.symm h
  exact ⟨read', mapM_eq_some_iff_forall₂.mpr hread, hp⟩

theorem getElem?_of_forall₂ {α β : Type} {R : α → β → Prop} {list : List α} {list' : List β}
    (h : List.Forall₂ R list list') (i : Nat) :
    (list[i]? = none ∧ list'[i]? = none) ∨
      ∃ a b, list[i]? = some a ∧ list'[i]? = some b ∧ R a b := by
  induction h generalizing i with
  | nil => exact Or.inl ⟨rfl, rfl⟩
  | cons hab _ ih =>
    cases i with
    | zero => exact Or.inr ⟨_, _, rfl, rfl, hab⟩
    | succ i => simpa using ih i

/-- What a loop that can fail keeps of the elements it is done with. -/
theorem foldlM_invariant {α β : Type} {f : β → α → Option β} {P : List α → β → Prop}
    (hstep : ∀ done x b b', P done b → f b x = some b' → P (done ++ [x]) b') {list : List α}
    {b b' : β} (hstart : P [] b) (h : list.foldlM f b = some b') : P list b' := by
  have hrun (rest : List α) : ∀ done b, P done b → rest.foldlM f b = some b' →
      P (done ++ rest) b' := by
    induction rest with
    | nil =>
      intro done b hb h
      cases h
      simpa using hb
    | cons x rest ih =>
      intro done b hb h
      rw [List.foldlM_cons] at h
      obtain ⟨next, hnext, hrest⟩ := Option.bind_eq_some_iff.mp h
      simpa using ih (done ++ [x]) next (hstep done x b next hb hnext) hrest
  exact hrun list [] b hstart h

/-- Changing both lists at one place. -/
theorem forall₂_set {α β : Type} {R : α → β → Prop} {xs : List α} {ys : List β} {x : α} {y : β}
    (h : List.Forall₂ R xs ys) (hxy : R x y) (i : Nat) :
    List.Forall₂ R (xs.set i x) (ys.set i y) := by
  induction h generalizing i with
  | nil => exact .nil
  | cons hab hrest ih =>
    cases i with
    | zero => exact .cons hxy hrest
    | succ i => exact .cons hab (ih i)

/-- A loop that only one element passes. -/
theorem flatMap_eq_of_key {α β κ : Type} {xs : List α} {key : α → κ} {f : α → List β}
    (hnodup : (xs.map key).Nodup) {x : α} (hx : x ∈ xs)
    (hothers : ∀ y ∈ xs, key y ≠ key x → f y = []) : xs.flatMap f = f x := by
  induction xs with
  | nil => cases hx
  | cons y xs ih =>
    rw [List.map_cons, List.nodup_cons] at hnodup
    rw [List.flatMap_cons]
    obtain rfl | hx := List.mem_cons.mp hx
    · have hrest : xs.flatMap f = [] := by
        rw [List.flatMap_eq_nil_iff]
        intro z hz
        apply hothers z (List.mem_cons_of_mem x hz)
        intro hkey
        exact hnodup.1 (hkey ▸ List.mem_map_of_mem hz)
      rw [hrest, List.append_nil]
    · have hy : f y = [] := by
        apply hothers y List.mem_cons_self
        intro hkey
        exact hnodup.1 (hkey ▸ List.mem_map_of_mem hx)
      rw [hy, List.nil_append]
      exact ih hnodup.2 hx fun z hz => hothers z (List.mem_cons_of_mem y hz)

theorem filterMap_eq_of_key {α β κ : Type} {xs : List α} {key : α → κ} {f : α → Option β}
    (hnodup : (xs.map key).Nodup) {x : α} (hx : x ∈ xs)
    (hothers : ∀ y ∈ xs, key y ≠ key x → f y = none) : xs.filterMap f = (f x).toList := by
  rw [List.filterMap_eq_flatMap_toList, flatMap_eq_of_key hnodup hx]
  intro y hy hne
  rw [hothers y hy hne, Option.toList_none]

/-- Reading as long as a test holds takes the first part of a text and leaves the rest. -/
theorem span_append {p : Char → Bool} {cs rest : List Char} (hcs : cs.all p = true)
    (hrest : ∀ c ∈ rest.head?, p c = false) :
    (cs ++ rest).takeWhile p = cs ∧ (cs ++ rest).dropWhile p = rest := by
  rw [List.all_eq_true] at hcs
  rw [List.takeWhile_append_of_pos hcs, List.dropWhile_append_of_pos hcs]
  cases rest with
  | nil => simp
  | cons c rest =>
    have hc : p c = false := hrest c rfl
    simp [hc]

end InferUI
