import Mathlib.Logic.Function.Basic
import Mathlib.Data.List.Basic

/-!
# Regular expressions

Patterns as a backtracking matcher runs them: classes of characters, the greedy repetition of a
class, optional parts and groups that capture. `run` lists the ways in which a pattern matches at
the head of a text, those tried first at the front, and `search` takes the first way at the first
place that has one. `First` says which way that is, with a rule for each kind of pattern.
-/

namespace InferUI

inductive Regex where
  | char (p : Char → Bool)
  /-- A greedy repetition. -/
  | many (p : Char → Bool)
  | seq (r s : Regex)
  /-- An optional part, tried before it is left out. -/
  | optional (r : Regex)
  | group (i : Nat) (r : Regex)

namespace Regex

abbrev Captures := Nat → Option (List Char)

/-- What is left of the text, and what the groups have captured. -/
structure Place where
  rest : List Char
  captures : Captures

/-- What a greedy repetition may leave. -/
def manyRests (p : Char → Bool) : List Char → List (List Char)
  | [] => [[]]
  | c :: cs => if p c then manyRests p cs ++ [c :: cs] else [c :: cs]

def run : Regex → Place → List Place
  | char p, place =>
    match place.rest with
    | [] => []
    | c :: cs => if p c then [{ place with rest := cs }] else []
  | many p, place => (manyRests p place.rest).map fun rest => { place with rest := rest }
  | seq r s, place => (run r place).flatMap (run s)
  -- a way that takes up nothing does not count as the part
  | optional r, place =>
    ((run r place).filter fun after => decide (after.rest.length < place.rest.length)) ++ [place]
  | group i r, place => (run r place).map fun after =>
    { after with
      captures := Function.update after.captures i
        (some (place.rest.take (place.rest.length - after.rest.length))) }

/-- The captures of the first match in a text. -/
def search (r : Regex) : List Char → Option Captures
  | [] => ((run r ⟨[], fun _ => none⟩).head?).map (·.captures)
  | c :: cs => (((run r ⟨c :: cs, fun _ => none⟩).head?).map (·.captures)).or (search r cs)

/-- One or more of a class. -/
def some1 (p : Char → Bool) : Regex := seq (char p) (many p)

/-- The way that is tried first. -/
def First (r : Regex) (before after : Place) : Prop := (run r before).head? = some after

theorem first_char {p : Char → Bool} {c : Char} (hc : p c = true) (cs : List Char)
    (captures : Captures) : First (char p) ⟨c :: cs, captures⟩ ⟨cs, captures⟩ := by
  simp [First, run, hc]

theorem manyRests_head (p : Char → Bool) (cs : List Char) :
    (manyRests p cs).head? = some (cs.dropWhile p) := by
  induction cs with
  | nil => rfl
  | cons c cs ih =>
    unfold manyRests
    cases hc : p c with
    | true => simp [ih, hc]
    | false => simp [hc]

/-- A repetition takes all it can. -/
theorem first_many (p : Char → Bool) (cs : List Char) (captures : Captures) :
    First (many p) ⟨cs, captures⟩ ⟨cs.dropWhile p, captures⟩ := by
  rw [First, run, List.head?_map, manyRests_head, Option.map_some]

theorem first_seq {r s : Regex} {a b c : Place} (hr : First r a b) (hs : First s b c) :
    First (seq r s) a c := by
  obtain ⟨others, hrun⟩ := List.head?_eq_some_iff.mp hr
  obtain ⟨others', hrun'⟩ := List.head?_eq_some_iff.mp hs
  rw [First, run, hrun, List.flatMap_cons, hrun']
  rfl

theorem first_optional {r : Regex} {a b : Place} (h : First r a b)
    (hlt : b.rest.length < a.rest.length) : First (optional r) a b := by
  obtain ⟨others, hrun⟩ := List.head?_eq_some_iff.mp h
  rw [First, run, hrun, List.filter_cons_of_pos (by simpa using hlt)]
  rfl

/-- A part that cannot match is left out. -/
theorem first_optional_none {r : Regex} {a : Place} (h : run r a = []) :
    First (optional r) a a := by
  rw [First, run, h]
  rfl

/-- A group captures what its pattern takes up. -/
theorem first_group {r : Regex} {taken rest : List Char} {before after : Captures} (i : Nat)
    (h : First r ⟨taken ++ rest, before⟩ ⟨rest, after⟩) :
    First (group i r) ⟨taken ++ rest, before⟩ ⟨rest, Function.update after i (some taken)⟩ := by
  rw [First, run, List.head?_map, h]
  simp

theorem search_of_first {r : Regex} {text : List Char} {after : Place}
    (h : First r ⟨text, fun _ => none⟩ after) : search r text = some after.captures := by
  cases text with
  | nil => rw [search, h, Option.map_some]
  | cons c cs => rw [search, h, Option.map_some, Option.some_or]

/-- A class repeated up to where the rest does not belong to it. -/
theorem first_some1 {p : Char → Bool} {taken rest : List Char} (hne : taken ≠ [])
    (htaken : ∀ c ∈ taken, p c = true) (hrest : ∀ c ∈ rest.head?, p c = false)
    (captures : Captures) : First (some1 p) ⟨taken ++ rest, captures⟩ ⟨rest, captures⟩ := by
  cases taken with
  | nil => exact absurd rfl hne
  | cons c cs =>
    rw [List.forall_mem_cons] at htaken
    have hdrop : (cs ++ rest).dropWhile p = rest := by
      rw [List.dropWhile_append_of_pos htaken.2]
      cases rest with
      | nil => rfl
      | cons d ds =>
        have hd : p d = false := hrest d rfl
        simp [hd]
    refine first_seq (first_char htaken.1 (cs ++ rest) captures) ?_
    have hmany := first_many p (cs ++ rest) captures
    rwa [hdrop] at hmany

end Regex
end InferUI
