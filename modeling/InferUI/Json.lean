import InferUI.Decimal
import InferUI.ListLemmas

/-!
# Json values

The values of the Json library, `jsoncpp.cpp`, and how it reads them: a field or an element that is
absent reads as `null`, `null` reads as the number 0, and reading a value as something else throws,
which is `none`.
-/

namespace InferUI

/-! ## Printing a real -/

/-- The seventeen significant digits of a positive number and the exponent of the first one. -/
def significand (x : ℚ) : List Char × ℤ :=
  let exponent := Int.log 10 x
  let digits := (roundHalfEven (x / 10 ^ (exponent - 16))).toNat
  if digits = 10 ^ 17 then (Nat.toDigits 10 (10 ^ 16), exponent + 1)
  else (Nat.toDigits 10 digits, exponent)

/-- A fraction is printed without its last zeros, and without a point when nothing is left. -/
def withFraction (whole fraction : List Char) : List Char :=
  let trimmed := (fraction.reverse.dropWhile fun c => c = '0').reverse
  if trimmed = [] then whole else whole ++ '.' :: trimmed

/-- `valueToString` of a `double`, by `%.17g`. A `double` is its value here: of `-0.0` the sign
is lost, and it reads as 0 with or without it. -/
def valueToString (x : ℚ) : List Char :=
  let (digits, exponent) := significand |x|
  let sign := if x < 0 then ['-'] else []
  if x = 0 then ['0']
  else if 0 ≤ exponent ∧ exponent < 17 then
    sign ++ withFraction (digits.take (exponent.toNat + 1)) (digits.drop (exponent.toNat + 1))
  else if -4 ≤ exponent ∧ exponent < 0 then
    sign ++ withFraction ['0'] (List.replicate (exponent.natAbs - 1) '0' ++ digits)
  else
    sign ++ withFraction (digits.take 1) (digits.drop 1) ++
      'e' :: (if exponent < 0 then '-' else '+') :: padded 2 exponent.natAbs

example : [valueToString 360, valueToString (-21 / 2), valueToString (10 ^ 20)] =
    ["360".toList, "-10.5".toList, "1e+20".toList] := by decide +kernel

/-! ## Values -/

/-- The fields of an object come in the order of the map that holds them. -/
inductive Json where
  | null
  | bool (b : Bool)
  | int (n : Int)
  | real (x : ℚ)
  | string (s : String)
  | array (elements : List Json)
  | object (fields : List (String × Json))

/-- The range of an `int`. -/
def IsInt (n : Int) : Prop := -2 ^ 31 ≤ n ∧ n ≤ 2 ^ 31 - 1

instance (n : Int) : Decidable (IsInt n) := inferInstanceAs (Decidable (_ ∧ _))

namespace Json

/-- `value.get("key", default)`. -/
def getD (value : Json) (key : String) (default : Json) : Option Json :=
  match value with
  | null => some default
  | object fields => some ((fields.lookup key).getD default)
  | _ => none

/-- `value["key"]`. -/
def get (value : Json) (key : String) : Option Json := value.getD key null

/-- `value[i]`. -/
def index (i : Nat) : Json → Option Json
  | null => some null
  | array elements => some (elements[i]?.getD null)
  | _ => none

/-- A real is cut to an `int`, and a number outside its range throws. -/
def asInt : Json → Option Int
  | null => some 0
  | bool b => some (if b then 1 else 0)
  | int n => if IsInt n then some n else none
  | real x => if -2 ^ 31 ≤ x ∧ x ≤ 2 ^ 31 - 1 then some (truncate x) else none
  | _ => none

def asString : Json → Option (List Char)
  | null => some []
  | bool b => some (if b then "true".toList else "false".toList)
  | int n => some (toString n).toList
  | real x => some (valueToString x)
  | string s => some s.toList
  | _ => none

/-- What a range `for` over the value visits. -/
def elements : Json → List Json
  | array elements => elements
  | object fields => fields.map (·.2)
  | _ => []

def size (value : Json) : Nat := value.elements.length

@[simp] theorem get_object (key : String) (fields : List (String × Json)) :
    (object fields).get key = some ((fields.lookup key).getD null) := rfl

@[simp] theorem index_array (i : Nat) (list : List Json) :
    (array list).index i = some (list[i]?.getD null) := rfl

theorem asInt_int {n : Int} (h : IsInt n) : (int n).asInt = some n := if_pos h

@[simp] theorem elements_array (list : List Json) : (array list).elements = list := rfl

end Json
end InferUI
