import InferUI.Decimal
import InferUI.Selection

/-!
# Constraint names

`Z3View::ConstraintName` prints what a boolean of the solver stands for, and the constructor of
`ConstraintData` reads it back. What is read is what was printed. The reader is put here without
the backtracking of its regular expression and without the range of an `int`; the module on the
regular expression has both and compares the two.
-/

namespace InferUI
variable {Prob : Type}

/-! ## Printing -/

/-- `ConstraintTypeStr`. -/
def ConstraintType.str : ConstraintType → String
  | l2l => "L2L" | l2r => "L2R" | r2l => "R2L" | r2r => "R2R"
  | t2t => "T2T" | t2b => "T2B" | b2t => "B2T" | b2b => "B2B"
  | l2lxr2l => "L2LxR2L" | l2lxr2r => "L2LxR2R" | l2rxr2l => "L2RxR2L" | l2rxr2r => "L2RxR2R"
  | t2txb2t => "T2TxB2T" | t2txb2b => "T2TxB2B" | t2bxb2t => "T2BxB2T" | t2bxb2b => "T2BxB2B"

/-- `static_cast<int>(size)`. -/
def ViewSize.toIndex : ViewSize → Nat
  | matchParent => 0
  | matchConstraint => 1
  | fixed => 2

/-- An underscore and a number. -/
def printNumber (n : Nat) : List Char := '_' :: Nat.toDigits 10 n

/-- `ConstraintName`, with one target or two. -/
def Z3View.printConstraintName (view : Z3View) (type : ConstraintType) (size : ViewSize)
    (l : Z3View) (r : Option Z3View) : List Char :=
  type.str.toList ++ printNumber size.toIndex ++ printNumber view.orientation.toIndex ++
    printNumber view.pos ++ printNumber l.pos ++ r.elim [] fun r => printNumber r.pos

/-- The name under which an attribute is printed. -/
def printAttributeName (views : List Z3View) (attr : Attribute Prob) : List Char :=
  let src := findView views attr.src
  let l := findView views attr.tgtPrimary
  if attr.type.isRelationalAnchor then src.printConstraintName attr.type .fixed l none
  else src.printConstraintName attr.type attr.viewSize l (attr.tgtSecondary.map (findView views))

/-! ## Reading -/

/-- `StrToConstraintType`. -/
def strToConstraintType (value : List Char) : Option ConstraintType :=
  [ConstraintType.l2l, .l2r, .r2l, .r2r, .t2t, .t2b, .b2t, .b2b, .l2lxr2l, .l2lxr2r, .l2rxr2l,
    .l2rxr2r, .t2txb2t, .t2txb2b, .t2bxb2t, .t2bxb2b].find? fun type => type.str.toList = value

def viewSizeOfIndex : Nat → Option ViewSize
  | 0 => some .matchParent
  | 1 => some .matchConstraint
  | 2 => some .fixed
  | _ => none

def orientationOfIndex : Nat → Option Orientation
  | 0 => some .horizontal
  | 1 => some .vertical
  | _ => none

/-- `_(\d+)` of the regular expression, and what follows it. -/
def readNumber : List Char → Option (Nat × List Char)
  | '_' :: cs => (readNat (cs.takeWhile Char.isDigit)).map fun n => (n, cs.dropWhile Char.isDigit)
  | _ => none

/-- The regular expression at one place of the name. No part of it can match in two ways, since
neither an underscore nor a digit is followed by what may be more of the same group. -/
def readNameAt (cs : List Char) : Option (List Char × Nat × Nat × Nat × Nat × Option Nat) := do
  let (size, rest) ← readNumber (cs.dropWhile (· ≠ '_'))
  let (orientation, rest) ← readNumber rest
  let (src, rest) ← readNumber rest
  let (primary, rest) ← readNumber rest
  some (cs.takeWhile (· ≠ '_'), size, orientation, src, primary, (readNumber rest).map (·.1))

/-- `std::regex_search`: the first place where the expression matches. -/
def searchName : List Char → Option (List Char × Nat × Nat × Nat × Nat × Option Nat)
  | [] => readNameAt []
  | c :: cs => (readNameAt (c :: cs)).or (searchName cs)

/-- What the constructor of `ConstraintData` reads; `none` is its failed `CHECK`, or a number or a
type that stands for nothing. -/
def readName (name : List Char) : Option ConstraintData := do
  let (type, size, orientation, src, primary, secondary) ← searchName name
  let type ← strToConstraintType type
  let size ← viewSizeOfIndex size
  let orientation ← orientationOfIndex orientation
  some ⟨type, size, orientation, src, primary, secondary.elim (-1) fun r => (r : Int)⟩

/-! ## Reading what was printed -/

theorem readNumber_printNumber (n : Nat) {rest : List Char}
    (hrest : ∀ c ∈ rest.head?, c.isDigit = false) :
    readNumber (printNumber n ++ rest) = some (n, rest) := by
  obtain ⟨htake, hdrop⟩ := span_append (all_isDigit_toDigits n) hrest
  simp only [printNumber, List.cons_append, readNumber]
  rw [htake, hdrop, readNat_toDigits, Option.map_some]

theorem head_printNumber (n : Nat) (rest : List Char) :
    ∀ c ∈ (printNumber n ++ rest).head?, c.isDigit = false := by
  intro c hc
  obtain rfl : '_' = c := by simpa [printNumber] using hc
  rfl

theorem searchName_of_match {cs : List Char}
    {found : List Char × Nat × Nat × Nat × Nat × Option Nat} (h : readNameAt cs = some found) :
    searchName cs = some found := by
  cases cs with
  | nil => exact h
  | cons c cs => rw [searchName, h, Option.some_or]

theorem strToConstraintType_str (type : ConstraintType) :
    strToConstraintType type.str.toList = some type := by
  cases type <;> decide

theorem readName_printConstraintName (view : Z3View) (type : ConstraintType) (size : ViewSize)
    (l : Z3View) (r : Option Z3View) :
    readName (view.printConstraintName type size l r) =
      some (view.constraintName type size l r) := by
  have htype : type.str.toList.all (fun c => decide (c ≠ '_')) = true := by
    cases type <;> decide
  have hsize : viewSizeOfIndex size.toIndex = some size := by cases size <;> rfl
  have horientation : orientationOfIndex view.orientation.toIndex = some view.orientation := by
    cases view.orientation <;> rfl
  have hend : ∀ c ∈ (r.elim [] fun r => printNumber r.pos).head?, c.isDigit = false := by
    cases r with
    | none => simp
    | some r => simpa using head_printNumber r.pos []
  have hlast : (readNumber (r.elim [] fun r => printNumber r.pos)).map (·.1) =
      r.map (·.pos) := by
    cases r with
    | none => rfl
    | some r =>
      have hread : readNumber (printNumber r.pos ++ []) = some (r.pos, []) :=
        readNumber_printNumber r.pos (by simp)
      rw [List.append_nil] at hread
      rw [Option.elim_some, hread]
      rfl
  have htail (rest : List Char) : ∀ c ∈ (printNumber size.toIndex ++ rest).head?,
      decide (c ≠ '_') = false := by
    intro c hc
    obtain rfl : '_' = c := by simpa [printNumber] using hc
    rfl
  obtain ⟨htake, hdrop⟩ := span_append htype (htail (printNumber view.orientation.toIndex ++
    (printNumber view.pos ++ (printNumber l.pos ++ r.elim [] fun r => printNumber r.pos))))
  have hname : readNameAt (view.printConstraintName type size l r) =
      some (type.str.toList, size.toIndex, view.orientation.toIndex, view.pos, l.pos,
        r.map (·.pos)) := by
    simp only [Z3View.printConstraintName, List.append_assoc]
    rw [readNameAt, htake, hdrop, readNumber_printNumber _ (head_printNumber _ _)]
    simp only [Option.bind_eq_bind, Option.bind_some,
      readNumber_printNumber _ (head_printNumber _ _), readNumber_printNumber _ hend, hlast]
  rw [readName, searchName_of_match hname]
  simp only [Option.bind_eq_bind, Option.bind_some, strToConstraintType_str, hsize, horientation,
    Z3View.constraintName]
  cases r <;> rfl

/-- The name of an attribute is read as the data it is printed from. -/
theorem readName_printAttributeName (views : List Z3View) (attr : Attribute Prob) :
    readName (printAttributeName views attr) = some (attributeName views attr) := by
  unfold printAttributeName attributeName
  split <;> exact readName_printConstraintName ..

theorem secondary_inj {r r' : Option Z3View} :
    ((r.elim (-1) fun r => (r.pos : Int)) = r'.elim (-1) fun r => (r.pos : Int)) ↔
      r.map (·.pos) = r'.map (·.pos) := by
  cases r <;> cases r' <;> simp

/-- Two constraints print the same name when they are the same data. -/
theorem printConstraintName_inj {view l view' l' : Z3View} {r r' : Option Z3View}
    {type type' : ConstraintType} {size size' : ViewSize} :
    view.printConstraintName type size l r = view'.printConstraintName type' size' l' r' ↔
      view.constraintName type size l r = view'.constraintName type' size' l' r' := by
  constructor
  · intro hname
    have hread := readName_printConstraintName view type size l r
    rw [hname, readName_printConstraintName] at hread
    exact (Option.some.inj hread).symm
  · intro hdata
    obtain ⟨rfl, rfl, horientation, hsrc, hprimary, hsecondary⟩ := ConstraintData.mk.inj hdata
    have hlast : (r.elim [] fun r => printNumber r.pos) =
        r'.elim [] fun r => printNumber r.pos := by
      simpa [Option.elim_map, Function.comp_def] using
        congrArg (fun pos => pos.elim [] printNumber) (secondary_inj.mp hsecondary)
    simp only [Z3View.printConstraintName, horientation, hsrc, hprimary, hlast]

end InferUI
