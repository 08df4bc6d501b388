import InferUI.ConstraintNames
import InferUI.ParseInt
import InferUI.Regex

/-!
# Reading constraint names with the regular expression

The constructor of `ConstraintData`, with `constraint_name_regex` and `ParseInt32`, and what it
makes of the names that `ConstraintName` prints.
-/

namespace InferUI
open Regex

/-! ## The constructor of `ConstraintData` -/

/-- `_(\d+)`, captured as group `i`. -/
def field (i : Nat) : Regex := seq (char fun c => decide (c = '_')) (group i (some1 Char.isDigit))

/-- `([^_]*)_(\d+)_(\d+)_(\d+)_(\d+)_?(\d+)?`. -/
def constraintNameRegex : Regex :=
  seq (group 1 (many fun c => decide (c ≠ '_'))) <| seq (field 2) <| seq (field 3) <|
    seq (field 4) <| seq (field 5) <| seq (optional (char fun c => decide (c = '_')))
      (optional (group 6 (some1 Char.isDigit)))

/-- A `ConstraintData` as the constructor fills it in. The enumerations of the size and of the
orientation hold any number that was cast to them. -/
structure ParsedData where
  type : ConstraintType
  size : Int
  orientation : Int
  src : Int
  primary : Int
  secondary : Int
  deriving DecidableEq, Repr

/-- The constructor of `ConstraintData`; `none` is a failed `CHECK`. -/
def parseConstraintData (value : List Char) : Option ParsedData := do
  let captures ← search constraintNameRegex value
  let type ← strToConstraintType (← captures 1)
  let size ← parseInt32 (← captures 2)
  let orientation ← parseInt32 (← captures 3)
  let src ← parseInt32 (← captures 4)
  let primary ← parseInt32 (← captures 5)
  let secondary ←
    match captures 6 with
    | some digits => parseInt32 digits
    | none => some (-1)
  some ⟨type, size, orientation, src, primary, secondary⟩

/-- The numbers behind the enumerations. -/
def ConstraintData.cast (data : ConstraintData) : ParsedData :=
  ⟨data.type, data.size.toIndex, data.orientation.toIndex, data.src, data.primary, data.secondary⟩

/-- What the optional end of the expression captures. -/
def captureSecondary (r : Option Z3View) (captures : Captures) : Captures :=
  r.elim captures fun r => Function.update captures 6 (some (Nat.toDigits 10 r.pos))

theorem first_digits (i n : Nat) {rest : List Char}
    (hrest : ∀ c ∈ rest.head?, c.isDigit = false) (captures : Captures) :
    First (group i (some1 Char.isDigit)) ⟨Nat.toDigits 10 n ++ rest, captures⟩
      ⟨rest, Function.update captures i (some (Nat.toDigits 10 n))⟩ :=
  first_group i <| first_some1 Nat.toDigits_ne_nil
    (List.all_eq_true.mp (all_isDigit_toDigits n)) hrest captures

/-- A number stops at the next underscore or at the end of the name. -/
theorem first_field (i n : Nat) {rest : List Char}
    (hrest : ∀ c ∈ rest.head?, c.isDigit = false) (captures : Captures) :
    First (field i) ⟨printNumber n ++ rest, captures⟩
      ⟨rest, Function.update captures i (some (Nat.toDigits 10 n))⟩ := by
  rw [printNumber, List.cons_append]
  exact first_seq (first_char rfl _ captures) (first_digits i n hrest captures)

/-- The last number is only captured where a separator of its own is printed. -/
theorem first_secondary (r : Option Z3View) (captures : Captures) :
    First (seq (optional (char fun c => decide (c = '_')))
        (optional (group 6 (some1 Char.isDigit))))
      ⟨r.elim [] fun r => printNumber r.pos, captures⟩ ⟨[], captureSecondary r captures⟩ := by
  cases r with
  | none => exact first_seq (first_optional_none rfl) (first_optional_none rfl)
  | some r =>
    have hseparator : First (optional (char fun c => decide (c = '_')))
        ⟨printNumber r.pos, captures⟩ ⟨Nat.toDigits 10 r.pos, captures⟩ :=
      first_optional (first_char rfl _ captures) (by simp [printNumber])
    have hnil : ∀ c ∈ ([] : List Char).head?, c.isDigit = false := by simp
    have hdigits := first_digits 6 r.pos hnil captures
    rw [List.append_nil] at hdigits
    refine first_seq hseparator (first_optional hdigits ?_)
    exact List.length_pos_of_ne_nil Nat.toDigits_ne_nil

/-- The type stops at the first underscore. -/
theorem first_type (type : ConstraintType) (n : Nat) (rest : List Char) (captures : Captures) :
    First (group 1 (many fun c => decide (c ≠ '_')))
      ⟨type.str.toList ++ (printNumber n ++ rest), captures⟩
      ⟨printNumber n ++ rest, Function.update captures 1 (some type.str.toList)⟩ := by
  have htype : type.str.toList.all (fun c => decide (c ≠ '_')) = true := by
    cases type <;> decide
  have hunderscore : ∀ c ∈ (printNumber n ++ rest).head?, decide (c ≠ '_') = false := by
    intro c hc
    obtain rfl : '_' = c := by simpa [printNumber] using hc
    rfl
  have hmany := first_many (fun c => decide (c ≠ '_'))
    (type.str.toList ++ (printNumber n ++ rest)) captures
  rw [(span_append htype hunderscore).2] at hmany
  exact first_group 1 hmany

theorem search_printConstraintName (view : Z3View) (type : ConstraintType) (size : ViewSize)
    (l : Z3View) (r : Option Z3View) :
    ∃ captures, search constraintNameRegex (view.printConstraintName type size l r) =
        some captures ∧
      captures 1 = some type.str.toList ∧
      captures 2 = some (Nat.toDigits 10 size.toIndex) ∧
      captures 3 = some (Nat.toDigits 10 view.orientation.toIndex) ∧
      captures 4 = some (Nat.toDigits 10 view.pos) ∧
      captures 5 = some (Nat.toDigits 10 l.pos) ∧
      captures 6 = r.map fun r => Nat.toDigits 10 r.pos := by
  have hend : ∀ c ∈ (r.elim [] fun r => printNumber r.pos).head?, c.isDigit = false := by
    cases r with
    | none => simp
    | some r => simpa using head_printNumber r.pos []
  have hmatch := first_seq (first_type type size.toIndex _ fun _ => none) <|
    first_seq (first_field 2 size.toIndex (head_printNumber _ _) _) <|
    first_seq (first_field 3 view.orientation.toIndex (head_printNumber _ _) _) <|
    first_seq (first_field 4 view.pos (head_printNumber _ _) _) <|
    first_seq (first_field 5 l.pos hend _) (first_secondary r _)
  simp only [Z3View.printConstraintName, List.append_assoc]
  refine ⟨_, search_of_first hmatch, ?_⟩
  cases r <;> exact ⟨rfl, rfl, rfl, rfl, rfl, rfl⟩

theorem ViewSize.toIndex_lt (size : ViewSize) : size.toIndex < 2 ^ 31 := by cases size <;> decide

theorem Orientation.toIndex_lt (orientation : Orientation) : orientation.toIndex < 2 ^ 31 := by
  cases orientation <;> decide

/-- On printed names the regular expression and `strtol` read what `readName` does, as long as the
positions are in the range of an `int`. -/
theorem parseConstraintData_eq_readName {view l : Z3View} {r : Option Z3View}
    (hsrc : view.pos < 2 ^ 31) (hprimary : l.pos < 2 ^ 31)
    (hsecondary : ∀ view ∈ r, view.pos < 2 ^ 31) (type : ConstraintType) (size : ViewSize) :
    parseConstraintData (view.printConstraintName type size l r) =
      (readName (view.printConstraintName type size l r)).map ConstraintData.cast := by
  rw [readName_printConstraintName, Option.map_some]
  obtain ⟨captures, hsearch, h1, h2, h3, h4, h5, h6⟩ :=
    search_printConstraintName view type size l r
  -- from the outside in, since each bind is under the ones before it
  simp only [parseConstraintData, ↓Option.bind_eq_bind, ↓Option.bind_some, hsearch, h1, h2, h3, h4,
    h5, h6, strToConstraintType_str]
  rw [parseInt32_toDigits size.toIndex_lt, Option.bind_some,
    parseInt32_toDigits view.orientation.toIndex_lt, Option.bind_some,
    parseInt32_toDigits hsrc, Option.bind_some, parseInt32_toDigits hprimary, Option.bind_some]
  cases r with
  | none => rfl
  | some r =>
    rw [Option.map_some]
    dsimp only
    rw [parseInt32_toDigits (hsecondary r rfl)]
    rfl

/-- The constructor of `ConstraintData` gives back what `ConstraintName` was called with, the
secondary target being `-1` where there is none, and no other constraint has that name. -/
theorem constraint_names_decode (view : Z3View) (type : ConstraintType) (size : ViewSize)
    (l : Z3View) (r : Option Z3View) (hsrc : view.pos < 2 ^ 31) (hprimary : l.pos < 2 ^ 31)
    (hsecondary : ∀ view ∈ r, view.pos < 2 ^ 31) :
    parseConstraintData (view.printConstraintName type size l r) =
        some ⟨type, size.toIndex, view.orientation.toIndex, view.pos, l.pos,
          r.elim (-1) fun r => (r.pos : Int)⟩ ∧
      ∀ (view' : Z3View) (type' : ConstraintType) (size' : ViewSize) (l' : Z3View)
        (r' : Option Z3View),
        view'.printConstraintName type' size' l' r' = view.printConstraintName type size l r →
          type' = type ∧ size' = size ∧ view'.orientation = view.orientation ∧
            view'.pos = view.pos ∧ l'.pos = l.pos ∧ r'.map (·.pos) = r.map (·.pos) := by
  constructor
  · rw [parseConstraintData_eq_readName hsrc hprimary hsecondary, readName_printConstraintName]
    rfl
  intro view' type' size' l' r' hname
  obtain ⟨htype, hsize, horientation, hpos, hl, hr⟩ :=
    ConstraintData.mk.inj (printConstraintName_inj.mp hname)
  exact ⟨htype, hsize, horientation, hpos, hl, secondary_inj.mp hr⟩

theorem constraint_names_decode_sample :
    parseConstraintData "L2LxR2R_2_0_10_0_2147483647".toList =
      some ⟨.l2lxr2r, 2, 0, 10, 0, 2147483647⟩ :=
  (constraint_names_decode ⟨10, .horizontal, 0, 0, 0⟩ .l2lxr2r .fixed ⟨0, .horizontal, 0, 0, 0⟩
    (some ⟨2147483647, .horizontal, 0, 0, 0⟩) (by decide) (by decide) (by decide)).1

end InferUI
