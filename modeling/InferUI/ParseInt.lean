import InferUI.Decimal
import InferUI.ListLemmas

/-!
# Reading an integer

`ParseInt32` of `strutil.cpp`, by `strtol` with base 0: the whole string has to be a number, in the
base that its prefix tells.
-/

namespace InferUI

namespace ParseInt32

/-- `isspace`. -/
def isSpace (c : Char) : Bool := decide (c = ' ') || decide (9 ≤ c.toNat ∧ c.toNat ≤ 13)

/-- The value of a character as a digit. -/
def digitValue (c : Char) : Option ℕ :=
  if c.isDigit then some (c.toNat - 48)
  else if c.isLower then some (c.toNat - 87)
  else if c.isUpper then some (c.toNat - 55)
  else none

def isDigitOf (base : ℕ) (c : Char) : Bool := (digitValue c).any fun d => decide (d < base)

/-- Whether there is a minus sign, and what follows the sign. -/
def readSign : List Char → Bool × List Char
  | '-' :: cs => (true, cs)
  | '+' :: cs => (false, cs)
  | cs => (false, cs)

/-- The base that the digits announce, and the digits behind its mark. -/
def readBase : List Char → ℕ × List Char
  | '0' :: cs =>
    match cs with
    | x :: d :: ds =>
      if (x = 'x' ∨ x = 'X') ∧ isDigitOf 16 d = true then (16, d :: ds) else (8, '0' :: cs)
    | _ => (8, '0' :: cs)
  | cs => (10, cs)

def digitsValue (base : ℕ) (cs : List Char) : ℕ :=
  cs.foldl (fun n c => base * n + (digitValue c).getD 0) 0

/-- `strtol` with base 0: the number, in the range of a `long`, and what was not read. -/
def strtol (cs : List Char) : ℤ × List Char :=
  let sign := readSign (cs.dropWhile isSpace)
  let base := readBase sign.2
  let digits := base.2.takeWhile (isDigitOf base.1)
  let value := (digitsValue base.1 digits : ℤ)
  if digits = [] then (0, cs)
  else (max (-2 ^ 63) (min (2 ^ 63 - 1) (if sign.1 then -value else value)),
    base.2.dropWhile (isDigitOf base.1))

end ParseInt32

open ParseInt32

/-- `ParseInt32`; `none` is its failed `CHECK`. The `long` is cut to an `int`. -/
def parseInt32 (s : List Char) : Option ℤ :=
  if s = [] then none
  else if (strtol s).2 = [] then some ((strtol s).1.bmod (2 ^ 32))
  else none

theorem digitValue_digit {c : Char} (h : c.isDigit = true) : digitValue c = some (c.toNat - 48) :=
  if_pos h

theorem digit_bounds {c : Char} (h : c.isDigit = true) : 48 ≤ c.toNat ∧ c.toNat ≤ 57 := by
  simp only [Char.isDigit, Bool.and_eq_true, decide_eq_true_eq] at h
  exact h

theorem isDigitOf_ten {c : Char} (h : c.isDigit = true) : isDigitOf 10 c = true := by
  have hbounds := digit_bounds h
  rw [isDigitOf, digitValue_digit h, Option.any_some, decide_eq_true_eq]
  omega

theorem digitsValue_ten {cs : List Char} (h : ∀ c ∈ cs, c.isDigit = true) :
    digitsValue 10 cs = Nat.ofDigitChars 10 cs 0 := by
  rw [digitsValue, Nat.ofDigitChars_eq_foldl]
  apply List.foldl_ext
  intro n c hc
  rw [digitValue_digit (h c hc)]
  rfl

/-- A positive number is not printed with a leading zero, which would make it octal. -/
theorem head_toDigits {n : ℕ} (hn : 0 < n) : ∀ c ∈ (Nat.toDigits 10 n).head?, c ≠ '0' := by
  induction n using Nat.strongRecOn with
  | ind n ih =>
    by_cases hlt : n < 10
    · rw [Nat.toDigits_of_lt_base hlt]
      intro c hc
      obtain rfl : n.digitChar = c := by simpa using hc
      intro hzero
      have hvalue := congrArg Char.toNat hzero
      rw [Nat.toNat_digitChar_of_lt_ten hlt, show '0'.toNat = 48 from rfl] at hvalue
      omega
    · have hdiv : 0 < n / 10 := by omega
      rw [Nat.toDigits_of_base_le (by decide) (by omega), List.head?_append_of_ne_nil
        _ Nat.toDigits_ne_nil]
      exact ih (n / 10) (by omega) hdiv

theorem strtol_digits {c : Char} {cs : List Char} (hdigits : ∀ d ∈ c :: cs, d.isDigit = true)
    (hzero : c ≠ '0') (hlt : Nat.ofDigitChars 10 (c :: cs) 0 < 2 ^ 63) :
    strtol (c :: cs) = ((Nat.ofDigitChars 10 (c :: cs) 0 : ℤ), []) := by
  have hbounds := digit_bounds (hdigits c List.mem_cons_self)
  have hspace : isSpace c = false := by
    have hne : c ≠ ' ' := by
      rintro rfl
      exact absurd hbounds.1 (by decide)
    simp only [isSpace, hne, decide_false, Bool.false_or, decide_eq_false_iff_not]
    omega
  have hsign : readSign (c :: cs) = (false, c :: cs) := by
    unfold readSign
    split
    · rename_i h
      obtain ⟨rfl, _⟩ := List.cons.inj h
      exact absurd hbounds.1 (by decide)
    · rename_i h
      obtain ⟨rfl, _⟩ := List.cons.inj h
      exact absurd hbounds.1 (by decide)
    · rfl
  have hbase : readBase (c :: cs) = (10, c :: cs) := by
    unfold readBase
    split
    · rename_i h
      obtain ⟨rfl, _⟩ := List.cons.inj h
      exact absurd rfl hzero
    · rfl
  have hall : (c :: cs).all (isDigitOf 10) = true :=
    List.all_eq_true.mpr fun d hd => isDigitOf_ten (hdigits d hd)
  have hend : ∀ d ∈ ([] : List Char).head?, isDigitOf 10 d = false := by simp
  obtain ⟨htake, hdrop⟩ := span_append hall hend
  rw [List.append_nil] at htake hdrop
  have hskip : (c :: cs).dropWhile isSpace = c :: cs :=
    List.dropWhile_cons_of_neg (by simp [hspace])
  simp only [strtol, hskip, hsign, hbase, htake, hdrop, digitsValue_ten hdigits]
  rw [if_neg (by simp)]
  simp only [Bool.false_eq_true, ↓reduceIte, Prod.mk.injEq, and_true]
  omega

theorem parseInt32_toDigits {n : ℕ} (h : n < 2 ^ 31) :
    parseInt32 (Nat.toDigits 10 n) = some (n : ℤ) := by
  rcases Nat.eq_zero_or_pos n with rfl | hpos
  · decide
  · have hhead := head_toDigits hpos
    have hvalue : Nat.ofDigitChars 10 (Nat.toDigits 10 n) 0 = n := Nat.ofDigitChars_ten_toDigits
    have hdigits := List.all_eq_true.mp (all_isDigit_toDigits n)
    have hne : Nat.toDigits 10 n ≠ [] := Nat.toDigits_ne_nil
    cases hcs : Nat.toDigits 10 n with
    | nil => exact absurd hcs hne
    | cons c cs =>
      rw [hcs] at hhead hvalue hdigits
      have hstrtol := strtol_digits hdigits (hhead c rfl) (by omega)
      rw [hvalue] at hstrtol
      have hint : (n : ℤ).bmod (2 ^ 32) = n := Int.bmod_eq_of_le (by omega) (by omega)
      rw [parseInt32, if_neg (by simp), hstrtol, if_pos rfl, hint]

end InferUI
