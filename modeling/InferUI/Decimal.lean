import Mathlib.Algebra.Order.Floor.Ring
import Mathlib.Data.Int.Log
import Mathlib.Data.Rat.Floor
import Mathlib.Tactic.Linarith
import Mathlib.Tactic.NormNum
import Mathlib.Tactic.Positivity
import Mathlib.Tactic.FieldSimp
import Mathlib.Tactic.Ring

/-!
# Decimals and 32-bit floats

Numbers written with a fixed number of decimals and read back, and the rounding of a rational
to a float of 32 bits. A float is the rational it stands for. `toFloat_fixed` says that six
decimals are enough: a float that is the nearest one to some number of six decimals is the
nearest one to what is printed for it.
-/

namespace InferUI

/-! ## Integers -/

/-- A number without a sign. -/
def readNat (cs : List Char) : Option ℕ :=
  if cs ≠ [] ∧ cs.all Char.isDigit = true then some (Nat.ofDigitChars 10 cs 0) else none

/-- A number with an optional sign. -/
def readInt : List Char → Option ℤ
  | '-' :: cs => (readNat cs).map fun n : ℕ => -(n : ℤ)
  | '+' :: cs => (readNat cs).map fun n : ℕ => (n : ℤ)
  | cs => (readNat cs).map fun n : ℕ => (n : ℤ)

theorem all_isDigit_toDigits (n : ℕ) : (Nat.toDigits 10 n).all Char.isDigit = true := by
  rw [List.all_eq_true]
  intro c hc
  exact Nat.isDigit_of_mem_toDigits (by decide) (by decide) hc

theorem readNat_toDigits (n : ℕ) : readNat (Nat.toDigits 10 n) = some n := by
  rw [readNat, if_pos ⟨Nat.toDigits_ne_nil, all_isDigit_toDigits n⟩, Nat.ofDigitChars_ten_toDigits]

/-- A digit is no sign. -/
theorem readInt_of_digits {cs : List Char} {n : ℕ} (h : readNat cs = some n) :
    readInt cs = some (n : ℤ) := by
  unfold readInt
  split
  · simp [readNat] at h
  · simp [readNat] at h
  · rw [h, Option.map_some]

theorem readInt_repr (n : ℤ) : readInt n.repr.toList = some n := by
  rw [Int.repr_eq_if]
  by_cases h : 0 ≤ n
  · rw [if_pos h, Nat.toList_repr, readInt_of_digits (readNat_toDigits _), Int.toNat_of_nonneg h]
  · rw [if_neg h, String.toList_append, Nat.toList_repr]
    have hread : readInt ('-' :: Nat.toDigits 10 (-n).toNat) = some (-((-n).toNat : ℤ)) := by
      rw [readInt, readNat_toDigits, Option.map_some]
    have hneg : -((-n).toNat : ℤ) = n := by omega
    rw [hneg] at hread
    exact hread

theorem repr_injective {m n : ℤ} (h : m.repr = n.repr) : m = n := by
  have := readInt_repr m
  rw [h, readInt_repr n] at this
  exact (Option.some.inj this).symm

/-! ## Rounding to an integer -/

def roundHalfEven (x : ℚ) : Int :=
  let fraction := x - ⌊x⌋
  if fraction < 1 / 2 ∨ (fraction = 1 / 2 ∧ ⌊x⌋ % 2 = 0) then ⌊x⌋ else ⌊x⌋ + 1

theorem abs_sub_roundHalfEven (x : ℚ) : |x - roundHalfEven x| ≤ 1 / 2 := by
  have hlow := Int.floor_le x
  have hhigh := Int.lt_floor_add_one x
  rw [abs_le]
  unfold roundHalfEven
  dsimp only
  split
  · rename_i h
    constructor <;> rcases h with h | h <;> linarith
  · rename_i h
    have := not_lt.mp (not_or.mp h).1
    push_cast
    constructor <;> linarith

/-- Half way between two integers the even one is taken. -/
theorem roundHalfEven_half (n : ℤ) :
    roundHalfEven (n + 1 / 2) = if n % 2 = 0 then n else n + 1 := by
  have hfloor : ⌊(n : ℚ) + 1 / 2⌋ = n := by
    rw [Int.floor_eq_iff]
    constructor <;> linarith
  rw [roundHalfEven, hfloor]
  simp

theorem roundHalfEven_eq {x : ℚ} {n : ℤ} (h : |x - n| < 1 / 2) : roundHalfEven x = n := by
  have hr := abs_sub_roundHalfEven x
  have hlt : |((roundHalfEven x - n : ℤ) : ℚ)| < 1 := by
    rw [abs_lt] at h ⊢
    rw [abs_le] at hr
    push_cast
    constructor <;> linarith [h.1, h.2, hr.1, hr.2]
  rw [← Int.cast_abs] at hlt
  have : |roundHalfEven x - n| < 1 := by exact_mod_cast hlt
  rw [Int.abs_lt_one_iff] at this
  omega

theorem roundHalfEven_nonneg {x : ℚ} (h : 0 ≤ x) : 0 ≤ roundHalfEven x := by
  have hfloor := Int.floor_nonneg.mpr h
  unfold roundHalfEven
  dsimp only
  split <;> omega

theorem roundHalfEven_neg (x : ℚ) : roundHalfEven (-x) = -roundHalfEven x := by
  rcases (abs_sub_roundHalfEven x).lt_or_eq with hlt | heq
  · apply roundHalfEven_eq
    rw [Int.cast_neg, sub_neg_eq_add, neg_add_eq_sub, abs_sub_comm]
    exact hlt
  -- `x` is half way, so the integer it is rounded to is even.
  · rcases (abs_eq (by norm_num)).mp heq with h | h
    · have hx : x = roundHalfEven x + 1 / 2 := by linarith
      have hneg : -x = ((-roundHalfEven x - 1 : ℤ) : ℚ) + 1 / 2 := by push_cast; linarith
      have heven := roundHalfEven_half (roundHalfEven x)
      rw [← hx] at heven
      rw [hneg, roundHalfEven_half]
      split at heven <;> split <;> omega
    · have hx : x = ((roundHalfEven x - 1 : ℤ) : ℚ) + 1 / 2 := by push_cast; linarith
      have hneg : -x = ((-roundHalfEven x : ℤ) : ℚ) + 1 / 2 := by push_cast; linarith
      have heven := roundHalfEven_half (roundHalfEven x - 1)
      rw [← hx] at heven
      rw [hneg, roundHalfEven_half]
      split at heven <;> split <;> omega

/-! ## A fixed number of decimals -/

/-- The digits of `x` scaled to `n` decimals. -/
def scaled (n : ℕ) (x : ℚ) : ℕ := (roundHalfEven (|x| * 10 ^ n)).toNat

/-- The number that `toFixed` writes. -/
def fixed (n : ℕ) (x : ℚ) : ℚ := (if x < 0 then -1 else 1) * (scaled n x / 10 ^ n)

/-- Digits, filled up with zeros from the left. -/
def padded (n m : ℕ) : List Char :=
  List.replicate (n - (Nat.toDigits 10 m).length) '0' ++ Nat.toDigits 10 m

theorem fixed_of_nonneg {n : ℕ} {x : ℚ} (hx : 0 ≤ x) :
    fixed n x = roundHalfEven (x * 10 ^ n) / 10 ^ n := by
  have hround : 0 ≤ roundHalfEven (x * 10 ^ n) := roundHalfEven_nonneg (by positivity)
  rw [fixed, if_neg (not_lt.mpr hx), one_mul, scaled, abs_of_nonneg hx]
  congr 1
  exact_mod_cast Int.toNat_of_nonneg hround

theorem fixed_neg {n : ℕ} {x : ℚ} (hx : 0 < x) : fixed n (-x) = -fixed n x := by
  rw [fixed, fixed, if_pos (by linarith), if_neg (by linarith), scaled, scaled, abs_neg]
  ring

/-- Writing changes a number by half a unit of the last decimal at most. -/
theorem abs_fixed_sub {n : ℕ} {x : ℚ} (hx : 0 ≤ x) : |fixed n x - x| ≤ 1 / 2 / 10 ^ n := by
  have hpow : (0 : ℚ) < 10 ^ n := by positivity
  have hround := abs_sub_roundHalfEven (x * 10 ^ n)
  have heq : fixed n x - x = -((x * 10 ^ n - roundHalfEven (x * 10 ^ n)) / 10 ^ n) := by
    rw [fixed_of_nonneg hx]
    field_simp
    ring
  rw [heq, abs_neg, abs_div, abs_of_pos hpow]
  exact div_le_div_of_nonneg_right hround hpow.le

/-- A number close enough to one of `n` decimals is written as that one. -/
theorem fixed_eq {n k : ℕ} {x : ℚ} (hx : 0 ≤ x) (h : |x * 10 ^ n - k| < 1 / 2) :
    fixed n x = k / 10 ^ n := by
  have hround : roundHalfEven (x * 10 ^ n) = (k : ℤ) := roundHalfEven_eq (by exact_mod_cast h)
  rw [fixed_of_nonneg hx, hround, Int.cast_natCast]

theorem fixed_natCast (n m : ℕ) : fixed n (m : ℚ) = m := by
  have h := fixed_eq (n := n) (k := m * 10 ^ n) (x := (m : ℚ)) (by positivity) (by simp)
  rw [h, Nat.cast_mul, Nat.cast_pow, Nat.cast_ofNat]
  field_simp

def toFixedChars (n : ℕ) (x : ℚ) : List Char :=
  (if x < 0 then ['-'] else []) ++ Nat.toDigits 10 (scaled n x / 10 ^ n) ++
    '.' :: padded n (scaled n x % 10 ^ n)

/-- `x` with `n` decimals, as `printf` writes it. -/
def toFixed (n : ℕ) (x : ℚ) : String := String.ofList (toFixedChars n x)

/-- Digits with a point among them or none. -/
def readUnsigned (cs : List Char) : Option ℚ :=
  let whole := cs.takeWhile (· ≠ '.')
  let part := (cs.dropWhile (· ≠ '.')).tail
  (readNat (whole ++ part)).map fun n : ℕ => (n / 10 ^ part.length : ℚ)

/-- A decimal with an optional sign. -/
def readDecimal : List Char → Option ℚ
  | '-' :: cs => (readUnsigned cs).map fun x => -x
  | '+' :: cs => readUnsigned cs
  | cs => readUnsigned cs

theorem length_padded {n m : ℕ} (hn : 0 < n) (h : m < 10 ^ n) : (padded n m).length = n := by
  have := (Nat.length_toDigits_le_iff (b := 10) (n := m) (by decide) hn).mpr h
  rw [padded, List.length_append, List.length_replicate]
  omega

theorem all_isDigit_padded (n m : ℕ) : (padded n m).all Char.isDigit = true := by
  rw [padded, List.all_append, all_isDigit_toDigits, Bool.and_true, List.all_eq_true]
  intro c hc
  rw [List.eq_of_mem_replicate hc]
  decide

theorem ofDigitChars_padded (n m : ℕ) : Nat.ofDigitChars 10 (padded n m) 0 = m := by
  rw [padded, Nat.ofDigitChars_append, Nat.ofDigitChars_replicate_zero, Nat.mul_zero,
    Nat.ofDigitChars_ten_toDigits]

theorem readUnsigned_toDigits {n k : ℕ} (hn : 0 < n) :
    readUnsigned (Nat.toDigits 10 (k / 10 ^ n) ++ '.' :: padded n (k % 10 ^ n)) =
      some ((k : ℚ) / 10 ^ n) := by
  have hpoint : ∀ c ∈ Nat.toDigits 10 (k / 10 ^ n), (decide (c ≠ '.')) = true := by
    intro c hc
    have := Nat.isDigit_of_mem_toDigits (by decide) (by decide) hc
    rw [decide_eq_true_eq]
    rintro rfl
    cases this
  have hlength := length_padded hn (Nat.mod_lt k (Nat.pow_pos (n := n) (by decide : 0 < 10)))
  have hread : readNat (Nat.toDigits 10 (k / 10 ^ n) ++ padded n (k % 10 ^ n)) = some k := by
    rw [readNat, if_pos, Nat.ofDigitChars_append, Nat.ofDigitChars_ten_toDigits,
      Nat.ofDigitChars_eq_ofDigitChars_zero, hlength, ofDigitChars_padded, Nat.div_add_mod]
    exact ⟨by simp [Nat.toDigits_ne_nil], by
      rw [List.all_append, all_isDigit_toDigits, all_isDigit_padded, Bool.and_true]⟩
  rw [readUnsigned, List.takeWhile_append_of_pos hpoint, List.dropWhile_append_of_pos hpoint]
  simp only [ne_eq, not_true_eq_false, decide_false, Bool.false_eq_true, not_false_eq_true,
    List.takeWhile_cons_of_neg, List.dropWhile_cons_of_neg, List.append_nil, List.tail_cons,
    hread, hlength, Option.map_some]

theorem readDecimal_toFixed {n : ℕ} (hn : 0 < n) (x : ℚ) :
    readDecimal (toFixed n x).toList = some (fixed n x) := by
  rw [toFixed, String.toList_ofList, toFixedChars, fixed]
  by_cases h : x < 0
  · rw [if_pos h, if_pos h, List.singleton_append, List.cons_append, readDecimal,
      readUnsigned_toDigits hn, Option.map_some, neg_one_mul]
  · rw [if_neg h, if_neg h, List.nil_append, one_mul, ← readUnsigned_toDigits hn]
    obtain ⟨c, cs, hc⟩ := List.exists_cons_of_ne_nil
      (Nat.toDigits_ne_nil (n := scaled n x / 10 ^ n) (b := 10))
    have hdigit : c.isDigit = true :=
      Nat.isDigit_of_mem_toDigits (by decide) (by decide) (hc ▸ List.mem_cons_self)
    rw [hc, List.cons_append, readDecimal]
    · intro _ hsign
      obtain ⟨rfl, _⟩ := List.cons.inj hsign
      cases hdigit
    · intro _ hsign
      obtain ⟨rfl, _⟩ := List.cons.inj hsign
      cases hdigit

/-! ## Cutting to an integer -/

/-- The conversion of a floating-point number to an `int`. -/
def truncate (x : ℚ) : Int := x.num.tdiv x.den

@[simp] theorem truncate_intCast (n : Int) : truncate n = n := by simp [truncate]

/-! ## Floats of 32 bits -/

/-- The nearest `float`: 24 significant bits, ties to even. Neither a bias nor a margin comes
near the ends of the range of exponents, and the arithmetic on them rounds each result. -/
def toFloat (x : ℚ) : ℚ :=
  let scale : ℚ := 2 ^ (23 - Int.log 2 |x|)
  if x = 0 then 0 else roundHalfEven (x * scale) / scale

theorem toFloat_zero : toFloat 0 = 0 := by
  rw [toFloat, if_pos rfl]

theorem toFloat_neg (x : ℚ) : toFloat (-x) = -toFloat x := by
  by_cases hx : x = 0
  · rw [hx, neg_zero, toFloat_zero, neg_zero]
  · rw [toFloat, toFloat, if_neg hx, if_neg (neg_ne_zero.mpr hx), abs_neg, neg_mul,
      roundHalfEven_neg, Int.cast_neg, neg_div]

/-- The exponent of the last place of the floats around a positive number. -/
def lastPlace (x : ℚ) : ℤ := Int.log 2 x - 23

theorem toFloat_of_pos {x : ℚ} (hx : 0 < x) :
    toFloat x = roundHalfEven (x / 2 ^ lastPlace x) * 2 ^ lastPlace x := by
  have hscale : (2 : ℚ) ^ (23 - Int.log 2 |x|) = (2 ^ lastPlace x)⁻¹ := by
    rw [abs_of_pos hx, ← zpow_neg, lastPlace, neg_sub]
  rw [toFloat, if_neg hx.ne', hscale, ← div_eq_mul_inv, div_inv_eq_mul]

/-- A positive number between two neighbours `2 ^ e` apart, nearer to `m * 2 ^ e` than to any
other of them. -/
structure Near (x : ℚ) (m e : ℤ) : Prop where
  low : 2 ^ 23 ≤ x / 2 ^ e
  high : x / 2 ^ e < 2 ^ 24
  dist : |x / 2 ^ e - m| ≤ 1 / 2

theorem pos_of_low {x : ℚ} {e : ℤ} (hlow : 2 ^ 23 ≤ x / 2 ^ e) : 0 < x := by
  have hpow : (0 : ℚ) < 2 ^ e := zpow_pos (by norm_num) e
  rw [le_div_iff₀ hpow] at hlow
  exact lt_of_lt_of_le (mul_pos (by norm_num) hpow) hlow

theorem lastPlace_eq {x : ℚ} {e : ℤ} (hlow : 2 ^ 23 ≤ x / 2 ^ e) (hhigh : x / 2 ^ e < 2 ^ 24) :
    lastPlace x = e := by
  have hx := pos_of_low hlow
  have hpow : (0 : ℚ) < 2 ^ e := zpow_pos (by norm_num) e
  rw [le_div_iff₀ hpow] at hlow
  rw [div_lt_iff₀ hpow] at hhigh
  have hl : e + 23 ≤ Int.log 2 x := by
    rw [← Int.zpow_le_iff_le_log (by decide) hx, Nat.cast_ofNat, zpow_add₀ (by norm_num), mul_comm]
    exact hlow
  have hh : Int.log 2 x < e + 24 := by
    rw [← Int.lt_zpow_iff_log_lt (by decide) hx, Nat.cast_ofNat, zpow_add₀ (by norm_num), mul_comm]
    exact hhigh
  rw [lastPlace]
  omega

/-- A number that is nearest to a float is rounded to it. -/
theorem toFloat_eq {x : ℚ} {m e : ℤ} (hlow : 2 ^ 23 ≤ x / 2 ^ e) (hhigh : x / 2 ^ e < 2 ^ 24)
    (h : |x / 2 ^ e - m| < 1 / 2) : toFloat x = m * 2 ^ e := by
  rw [toFloat_of_pos (pos_of_low hlow), lastPlace_eq hlow hhigh, roundHalfEven_eq h]

theorem lastPlace_spec {x : ℚ} (hx : 0 < x) :
    2 ^ 23 ≤ x / 2 ^ lastPlace x ∧ x / 2 ^ lastPlace x < 2 ^ 24 := by
  have hpow : (0 : ℚ) < 2 ^ lastPlace x := zpow_pos (by norm_num) _
  constructor
  · have := Int.zpow_log_le_self (b := 2) (by decide) hx
    have hlog : Int.log 2 x = ((23 : ℕ) : ℤ) + lastPlace x := by rw [lastPlace]; omega
    rw [le_div_iff₀ hpow, ← zpow_natCast, ← zpow_add₀ (by norm_num)]
    rwa [Nat.cast_ofNat, hlog] at this
  · have := Int.lt_zpow_succ_log_self (b := 2) (by decide) x
    have hlog : Int.log 2 x + 1 = ((24 : ℕ) : ℤ) + lastPlace x := by rw [lastPlace]; omega
    rw [div_lt_iff₀ hpow, ← zpow_natCast, ← zpow_add₀ (by norm_num)]
    rwa [Nat.cast_ofNat, hlog] at this

theorem exists_near {x : ℚ} (hx : 0 < x) : ∃ m e : ℤ, toFloat x = m * 2 ^ e ∧ Near x m e :=
  ⟨roundHalfEven (x / 2 ^ lastPlace x), lastPlace x, toFloat_of_pos hx,
    (lastPlace_spec hx).1, (lastPlace_spec hx).2, abs_sub_roundHalfEven _⟩

/-- A number with 24 binary digits is a float. -/
theorem toFloat_float {m e : ℤ} (hlow : 2 ^ 23 ≤ m) (hhigh : m ≤ 2 ^ 24) :
    toFloat (m * 2 ^ e) = m * 2 ^ e := by
  have hpow : (2 : ℚ) ^ e ≠ 0 := zpow_ne_zero e (by norm_num)
  rcases hhigh.lt_or_eq with hlt | rfl
  · apply toFloat_eq <;> rw [mul_div_cancel_right₀ _ hpow]
    · exact_mod_cast hlow
    · exact_mod_cast hlt
    · simp
  · have hshift : (((2 : ℤ) ^ 24 : ℤ) : ℚ) * 2 ^ e = ((2 ^ 23 : ℤ) : ℚ) * 2 ^ (e + 1) := by
      rw [zpow_add₀ (by norm_num)]
      norm_num
      ring
    have hpow : (2 : ℚ) ^ (e + 1) ≠ 0 := zpow_ne_zero _ (by norm_num)
    rw [hshift]
    apply toFloat_eq <;> rw [mul_div_cancel_right₀ _ hpow] <;> norm_num

theorem Near.mantissa {x : ℚ} {m e : ℤ} (h : Near x m e) : 2 ^ 23 ≤ m ∧ m ≤ 2 ^ 24 := by
  obtain ⟨hl, hr⟩ := abs_le.mp h.dist
  have hlow : ((2 ^ 23 - 1 : ℤ) : ℚ) < m := by push_cast; linarith [h.low]
  have hhigh : (m : ℚ) < ((2 ^ 24 + 1 : ℤ) : ℚ) := by push_cast; linarith [h.high]
  rw [Int.cast_lt] at hlow hhigh
  omega

/-- Below 16 the six decimals of the nearest float are those of the number itself. -/
theorem Near.fixed_eq {k : ℕ} {m e : ℤ} (h : Near ((k : ℚ) / 10 ^ 6) m e) (he : e ≤ -20) :
    fixed 6 ((m : ℚ) * 2 ^ e) = (k : ℚ) / 10 ^ 6 := by
  have hpow : (0 : ℚ) < 2 ^ e := zpow_pos (by norm_num) e
  have hm : (0 : ℚ) ≤ m := by
    exact_mod_cast le_trans (show (0 : ℤ) ≤ 2 ^ 23 by norm_num) h.mantissa.1
  have hsmall : (2 : ℚ) ^ e ≤ 2 ^ (-20 : ℤ) := zpow_le_zpow_right₀ (by norm_num) he
  have hdist : |(m : ℚ) * 2 ^ e * 10 ^ 6 - k| =
      |(k : ℚ) / 10 ^ 6 / 2 ^ e - m| * (2 ^ e * 10 ^ 6) := by
    have hscale : (m : ℚ) * 2 ^ e * 10 ^ 6 - k =
        -(((k : ℚ) / 10 ^ 6 / 2 ^ e - m) * (2 ^ e * 10 ^ 6)) := by
      field_simp
      ring
    rw [hscale, abs_neg, abs_mul, abs_of_pos (show (0 : ℚ) < 2 ^ e * 10 ^ 6 by positivity)]
  apply InferUI.fixed_eq (by positivity)
  rw [hdist]
  calc |(k : ℚ) / 10 ^ 6 / 2 ^ e - m| * (2 ^ e * 10 ^ 6)
      ≤ 1 / 2 * (2 ^ (-20 : ℤ) * 10 ^ 6) :=
        mul_le_mul h.dist (by linarith) (by positivity) (by norm_num)
    _ < 1 / 2 := by norm_num

/-- From 16 on what is written for a float is nearer to it than to its neighbours. -/
theorem toFloat_fixed_float {m e : ℤ} (he : -20 < e) (hlow : 2 ^ 23 ≤ m) (hhigh : m ≤ 2 ^ 24) :
    toFloat (fixed 6 ((m : ℚ) * 2 ^ e)) = m * 2 ^ e := by
  have hpow : (0 : ℚ) < 2 ^ e := zpow_pos (by norm_num) e
  by_cases hint : ∃ n : ℕ, (m : ℚ) * 2 ^ e = n
  · obtain ⟨n, hn⟩ := hint
    rw [hn, fixed_natCast, ← hn, toFloat_float hlow hhigh]
  · have hneg : e < 0 := by
      by_contra hge
      refine hint ⟨m.toNat * 2 ^ e.toNat, ?_⟩
      rw [Nat.cast_mul, Nat.cast_pow, Nat.cast_ofNat, ← zpow_natCast,
        Int.toNat_of_nonneg (by omega), ← Int.cast_natCast, Int.toNat_of_nonneg (by omega)]
    have hpower {j : ℕ} (hj : m = 2 ^ j) (hle : 20 ≤ j) : False := by
      refine hint ⟨2 ^ (j + e).toNat, ?_⟩
      rw [hj, Nat.cast_pow, Nat.cast_ofNat, ← zpow_natCast, Int.toNat_of_nonneg (by omega),
        zpow_add₀ (by norm_num), zpow_natCast, Int.cast_pow, Int.cast_ofNat]
    have hm : 2 ^ 23 < m := lt_of_le_of_ne hlow fun h => hpower h.symm (by norm_num)
    have hm' : m < 2 ^ 24 := lt_of_le_of_ne hhigh fun h => hpower h (by norm_num)
    have hpos : (0 : ℚ) ≤ m := by
      exact_mod_cast le_trans (show (0 : ℤ) ≤ 2 ^ 23 by norm_num) hlow
    have hwritten := abs_fixed_sub (n := 6) (x := (m : ℚ) * 2 ^ e) (by positivity)
    have hbig : (2 : ℚ) ^ (-19 : ℤ) ≤ 2 ^ e := zpow_le_zpow_right₀ (by norm_num) (by omega)
    have hdist : |fixed 6 ((m : ℚ) * 2 ^ e) / 2 ^ e - m| < 1 / 2 := by
      have hscale : fixed 6 ((m : ℚ) * 2 ^ e) / 2 ^ e - m =
          (fixed 6 ((m : ℚ) * 2 ^ e) - m * 2 ^ e) / 2 ^ e := by field_simp
      rw [hscale, abs_div, abs_of_pos hpow, div_lt_iff₀ hpow]
      calc |fixed 6 ((m : ℚ) * 2 ^ e) - m * 2 ^ e| ≤ 1 / 2 / 10 ^ 6 := hwritten
        _ < 1 / 2 * 2 ^ (-19 : ℤ) := by norm_num
        _ ≤ 1 / 2 * 2 ^ e := mul_le_mul_of_nonneg_left hbig (by norm_num)
    obtain ⟨hl, hr⟩ := abs_lt.mp hdist
    have hm₁ : ((2 ^ 23 + 1 : ℤ) : ℚ) ≤ m := by exact_mod_cast hm
    have hm₂ : (m : ℚ) ≤ ((2 ^ 24 - 1 : ℤ) : ℚ) := by
      have : m ≤ 2 ^ 24 - 1 := by omega
      exact_mod_cast this
    push_cast at hm₁ hm₂
    exact toFloat_eq (by linarith) (by linarith) hdist

theorem toFloat_fixed_of_pos {k : ℕ} (hk : 0 < k) :
    toFloat (fixed 6 (toFloat ((k : ℚ) / 10 ^ 6))) = toFloat ((k : ℚ) / 10 ^ 6) := by
  obtain ⟨m, e, heq, hnear⟩ := exists_near (show (0 : ℚ) < (k : ℚ) / 10 ^ 6 by positivity)
  by_cases he : e ≤ -20
  · rw [heq, hnear.fixed_eq he, heq]
  · rw [heq, toFloat_fixed_float (by omega) hnear.mantissa.1 hnear.mantissa.2]

theorem toFloat_pos {x : ℚ} (hx : 0 < x) : 0 < toFloat x := by
  obtain ⟨m, e, heq, hnear⟩ := exists_near hx
  have hm : (0 : ℚ) < m := by
    exact_mod_cast lt_of_lt_of_le (show (0 : ℤ) < 2 ^ 23 by norm_num) hnear.mantissa.1
  rw [heq]
  exact mul_pos hm (zpow_pos (by norm_num) e)

/-- A float that is nearest to a number of six decimals is nearest to what is written for it. -/
theorem toFloat_fixed {x : ℚ} {k : ℤ} (h : x = toFloat ((k : ℚ) / 10 ^ 6)) :
    toFloat (fixed 6 x) = x := by
  obtain hneg | rfl | hpos := lt_trichotomy k 0
  · obtain ⟨j, rfl⟩ : ∃ j : ℕ, k = -(j : ℤ) := ⟨k.natAbs, by omega⟩
    have hj : 0 < j := by omega
    rw [Int.cast_neg, Int.cast_natCast, neg_div, toFloat_neg] at h
    rw [h, fixed_neg (toFloat_pos (by positivity)), toFloat_neg, toFloat_fixed_of_pos hj]
  · rw [Int.cast_zero, zero_div, toFloat_zero] at h
    rw [h, ← Nat.cast_zero, fixed_natCast, Nat.cast_zero, toFloat_zero]
  · obtain ⟨j, rfl⟩ : ∃ j : ℕ, k = (j : ℤ) := ⟨k.natAbs, by omega⟩
    have hj : 0 < j := by omega
    rw [Int.cast_natCast] at h
    rw [h, toFloat_fixed_of_pos hj]

/-- A whole number of 24 binary digits is a float. -/
theorem toFloat_natCast {n : ℕ} (h : n ≤ 2 ^ 24) : toFloat (n : ℚ) = n := by
  rcases Nat.eq_zero_or_pos n with rfl | hpos
  · exact_mod_cast toFloat_zero
  rcases h.lt_or_eq with hlt | rfl
  · have hlog : Nat.log 2 n ≤ 23 := by
      have := Nat.log_lt_of_lt_pow hpos.ne' hlt
      omega
    have hsplit : (n : ℚ) =
        ((n * 2 ^ (23 - Nat.log 2 n) : ℕ) : ℤ) * 2 ^ (Nat.log 2 n - 23 : ℤ) := by
      rw [Int.cast_natCast, Nat.cast_mul, Nat.cast_pow, Nat.cast_ofNat, ← zpow_natCast, mul_assoc,
        ← zpow_add₀ (by norm_num), Nat.cast_sub hlog]
      norm_num
    have hlow : 2 ^ 23 ≤ n * 2 ^ (23 - Nat.log 2 n) := by
      calc 2 ^ 23 = 2 ^ Nat.log 2 n * 2 ^ (23 - Nat.log 2 n) := by
            rw [← Nat.pow_add, Nat.add_sub_cancel' hlog]
        _ ≤ n * 2 ^ (23 - Nat.log 2 n) := Nat.mul_le_mul_right _ (Nat.pow_log_le_self 2 hpos.ne')
    have hhigh : n * 2 ^ (23 - Nat.log 2 n) ≤ 2 ^ 24 := by
      calc n * 2 ^ (23 - Nat.log 2 n)
          ≤ 2 ^ (Nat.log 2 n + 1) * 2 ^ (23 - Nat.log 2 n) :=
            Nat.mul_le_mul_right _ (Nat.lt_pow_succ_log_self (by decide) n).le
        _ = 2 ^ 24 := by rw [← Nat.pow_add]; congr 1; omega
    rw [hsplit]
    exact toFloat_float (by exact_mod_cast hlow) (by exact_mod_cast hhigh)
  · have := toFloat_float (m := 2 ^ 24) (e := 0) (by decide) (by decide)
    simpa using this

/-! ### Order, halves and whole numbers -/

theorem toFloat_neg_iff {x : ℚ} : toFloat x < 0 ↔ x < 0 := by
  rcases lt_trichotomy x 0 with hx | rfl | hx
  · have := toFloat_pos (neg_pos.mpr hx)
    rw [toFloat_neg] at this
    exact iff_of_true (neg_pos.mp this) hx
  · rw [toFloat_zero]
  · exact iff_of_false (toFloat_pos hx).not_gt hx.not_gt

@[simp] theorem toFloat_nonneg_iff {x : ℚ} : 0 ≤ toFloat x ↔ 0 ≤ x := by
  rw [← not_lt, ← not_lt, toFloat_neg_iff]

/-- Rounding commutes with a change of the exponent. -/
theorem toFloat_mul_zpow_of_pos {x : ℚ} (hx : 0 < x) (k : ℤ) :
    toFloat (x * 2 ^ k) = toFloat x * 2 ^ k := by
  have hpow : (0 : ℚ) < 2 ^ k := zpow_pos (by norm_num) k
  have hshift : x * 2 ^ k / 2 ^ (lastPlace x + k) = x / 2 ^ lastPlace x := by
    rw [zpow_add₀ (by norm_num), mul_div_mul_right _ _ hpow.ne']
  obtain ⟨hlow, hhigh⟩ := lastPlace_spec hx
  have hplace : lastPlace (x * 2 ^ k) = lastPlace x + k :=
    lastPlace_eq (by rwa [hshift]) (by rwa [hshift])
  rw [toFloat_of_pos (mul_pos hx hpow), toFloat_of_pos hx, hplace, hshift,
    zpow_add₀ (by norm_num), mul_assoc]

theorem toFloat_half (x : ℚ) : toFloat (x / 2) = toFloat x / 2 := by
  have hpos {y : ℚ} (hy : 0 < y) : toFloat (y / 2) = toFloat y / 2 := by
    have h := toFloat_mul_zpow_of_pos hy (-1)
    rwa [zpow_neg_one, ← div_eq_mul_inv, ← div_eq_mul_inv] at h
  rcases lt_trichotomy x 0 with hx | rfl | hx
  · have h := hpos (neg_pos.mpr hx)
    rwa [neg_div, toFloat_neg, toFloat_neg, neg_div, neg_inj] at h
  · rw [zero_div, toFloat_zero, zero_div]
  · exact hpos hx

theorem toFloat_toFloat (x : ℚ) : toFloat (toFloat x) = toFloat x := by
  have hpos {y : ℚ} (hy : 0 < y) : toFloat (toFloat y) = toFloat y := by
    obtain ⟨m, e, heq, hnear⟩ := exists_near hy
    rw [heq, toFloat_float hnear.mantissa.1 hnear.mantissa.2]
  rcases lt_trichotomy x 0 with hx | rfl | hx
  · have h := hpos (neg_pos.mpr hx)
    rwa [toFloat_neg, toFloat_neg, neg_inj] at h
  · rw [toFloat_zero, toFloat_zero]
  · exact hpos hx

/-- A number that is at least a power of two stays so. -/
theorem zpow_le_toFloat {x : ℚ} {k : ℤ} (h : 2 ^ k ≤ x) : 2 ^ k ≤ toFloat x := by
  have hx : 0 < x := (zpow_pos (by norm_num) k).trans_le h
  obtain ⟨m, e, heq, hnear⟩ := exists_near hx
  have hpow : (0 : ℚ) < 2 ^ e := zpow_pos (by norm_num) e
  have hhigh := hnear.high
  rw [div_lt_iff₀ hpow, ← zpow_natCast, ← zpow_add₀ (by norm_num)] at hhigh
  have hexp : k < ((24 : ℕ) : ℤ) + e :=
    (zpow_lt_zpow_iff_right₀ (by norm_num : (1 : ℚ) < 2)).mp (h.trans_lt hhigh)
  have hm : ((2 ^ 23 : ℤ) : ℚ) ≤ m := Int.cast_le.mpr hnear.mantissa.1
  rw [heq]
  calc (2 : ℚ) ^ k ≤ 2 ^ (((23 : ℕ) : ℤ) + e) :=
        zpow_le_zpow_right₀ (by norm_num) (by push_cast at hexp ⊢; omega)
    _ = ((2 ^ 23 : ℤ) : ℚ) * 2 ^ e := by
        rw [zpow_add₀ (by norm_num), zpow_natCast]
        norm_num
    _ ≤ m * 2 ^ e := mul_le_mul_of_nonneg_right hm hpow.le

theorem toFloat_intCast {n : ℤ} (h : n.natAbs ≤ 2 ^ 24) : toFloat (n : ℚ) = n := by
  rcases n.natAbs_eq with hn | hn
  · rw [hn, Int.cast_natCast, toFloat_natCast h]
  · rw [hn, Int.cast_neg, Int.cast_natCast, toFloat_neg, toFloat_natCast h]

/-- A whole number is rounded to a whole number. -/
theorem exists_toFloat_intCast (n : ℤ) : ∃ m : ℤ, toFloat (n : ℚ) = m := by
  have hnat (k : ℕ) : ∃ m : ℤ, toFloat (k : ℚ) = m := by
    by_cases hk : k ≤ 2 ^ 24
    · exact ⟨k, by rw [toFloat_natCast hk, Int.cast_natCast]⟩
    have hlarge : ((2 : ℚ) ^ 24) < k := by exact_mod_cast not_le.mp hk
    obtain ⟨m, e, heq, hnear⟩ := exists_near (lt_trans (by norm_num) hlarge)
    have hpow : (0 : ℚ) < 2 ^ e := zpow_pos (by norm_num) e
    have hhigh := hnear.high
    rw [div_lt_iff₀ hpow] at hhigh
    have hone : (1 : ℚ) < 2 ^ e := by nlinarith
    have he : 0 < e := (one_lt_zpow_iff_right₀ (by norm_num)).mp hone
    obtain ⟨j, rfl⟩ : ∃ j : ℕ, e = j := ⟨e.toNat, by omega⟩
    exact ⟨m * 2 ^ j, by rw [heq, zpow_natCast, Int.cast_mul, Int.cast_pow, Int.cast_ofNat]⟩
  rcases n.natAbs_eq with hn | hn
  · rw [hn, Int.cast_natCast]
    exact hnat _
  · obtain ⟨m, hm⟩ := hnat n.natAbs
    exact ⟨-m, by rw [hn, Int.cast_neg, Int.cast_natCast, toFloat_neg, hm, Int.cast_neg]⟩

end InferUI
