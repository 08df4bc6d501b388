import Mathlib.Algebra.Group.Nat.Defs
import Mathlib.Data.Nat.Basic
import Mathlib.Tactic.Common

/-!
# Base 128 varints

A number as groups of seven bits, the lowest first, each but the last with the high bit of
its byte set.
-/

namespace Varint

abbrev Bytes := List UInt8

def encode (n : Nat) : Bytes :=
  if n < 128 then [UInt8.ofNat n] else UInt8.ofNat (n % 128 + 128) :: encode (n / 128)
termination_by n

/-- The number at the head of the bytes, and the bytes behind it. -/
def decode : Bytes → Option (Nat × Bytes)
  | [] => none
  | b :: bytes =>
    if b.toNat < 128 then some (b.toNat, bytes)
    else (decode bytes).map fun found => (b.toNat % 128 + 128 * found.1, found.2)

/-- A last byte holds its group. -/
theorem toNat_last {n : Nat} (h : n < 128) : (UInt8.ofNat n).toNat = n := by
  rw [UInt8.toNat_ofNat', Nat.mod_eq_of_lt (by omega)]

/-- The other bytes hold theirs below the high bit. -/
theorem toNat_more (n : Nat) : (UInt8.ofNat (n % 128 + 128)).toNat = n % 128 + 128 := by
  rw [UInt8.toNat_ofNat', Nat.mod_eq_of_lt (by omega)]

theorem encode_of_lt {n : Nat} (h : n < 128) : encode n = [UInt8.ofNat n] := by
  rw [encode, if_pos h]

theorem encode_of_le {n : Nat} (h : 128 ≤ n) :
    encode n = UInt8.ofNat (n % 128 + 128) :: encode (n / 128) := by
  rw [encode, if_neg (Nat.not_lt.mpr h)]

theorem length_encode_le {n k : Nat} (h : n < 128 ^ (k + 1)) : (encode n).length ≤ k + 1 := by
  induction k generalizing n with
  | zero => rw [encode_of_lt (by omega), List.length_singleton]
  | succ k ih =>
    by_cases hn : n < 128
    · rw [encode_of_lt hn, List.length_singleton]
      omega
    · rw [encode_of_le (Nat.le_of_not_lt hn), List.length_cons]
      have hdiv : n / 128 < 128 ^ (k + 1) := by
        rw [Nat.div_lt_iff_lt_mul (by decide), ← Nat.pow_succ]
        exact h
      exact Nat.succ_le_succ (ih hdiv)

theorem length_of_decode {bytes rest : Bytes} {n : Nat} (h : decode bytes = some (n, rest)) :
    rest.length < bytes.length := by
  induction bytes generalizing n with
  | nil => cases h
  | cons b bytes ih =>
    rw [decode] at h
    split at h
    · obtain ⟨_, rfl⟩ := Prod.mk.inj (Option.some.inj h)
      exact Nat.lt_succ_self _
    · obtain ⟨⟨m, rest'⟩, hrest, hfound⟩ := Option.map_eq_some_iff.mp h
      obtain ⟨_, rfl⟩ := Prod.mk.inj hfound
      exact Nat.lt_succ_of_lt (ih hrest)

theorem decode_encode (n : Nat) (rest : Bytes) : decode (encode n ++ rest) = some (n, rest) := by
  induction n using Nat.strong_induction_on with
  | _ n ih =>
    by_cases h : n < 128
    · rw [encode_of_lt h, List.singleton_append, decode, toNat_last h, if_pos h]
    · have hvalue : (n % 128 + 128) % 128 + 128 * (n / 128) = n := by omega
      rw [encode_of_le (Nat.le_of_not_lt h), List.cons_append, decode, toNat_more,
        if_neg (by omega),
        ih (n / 128) (by omega), Option.map_some]
      simp only [hvalue]

/-- A varint that is cut is none. -/
theorem decode_take_encode {n k : Nat} (h : k < (encode n).length) :
    decode ((encode n).take k) = none := by
  induction n using Nat.strong_induction_on generalizing k with
  | _ n ih =>
    cases k with
    | zero => rw [List.take_zero, decode]
    | succ k =>
      by_cases hn : n < 128
      · rw [encode_of_lt hn, List.length_singleton] at h
        omega
      · rw [encode_of_le (Nat.le_of_not_lt hn), List.length_cons] at h
        rw [encode_of_le (Nat.le_of_not_lt hn), List.take_succ_cons, decode, toNat_more,
          if_neg (by omega), ih (n / 128) (by omega) (by omega), Option.map_none]

/-- The payload of a byte. -/
theorem and_mask (n : Nat) : n &&& 0x7f = n % 128 := Nat.and_two_pow_sub_one_eq_mod n 7

theorem shift_seven (n : Nat) : n >>> 7 = n / 128 := Nat.shiftRight_eq_div_pow n 7

/-- The high bit of a byte. -/
theorem and_high {n : Nat} (h : n < 256) : n &&& 0x80 = 0 ↔ n < 128 := by
  have all : ∀ n < 256, (n &&& 0x80 = 0 ↔ n < 128) := by decide +kernel
  exact all n h

theorem or_high {n : Nat} (h : n < 128) : 0x80 ||| n = n + 128 := by
  have := Nat.two_pow_add_eq_or_of_lt (i := 7) h 1
  rw [Nat.add_comm]
  exact this.symm

/-- Adding a group above the bits that are there. -/
theorem or_shift {result shift : Nat} (h : result < 2 ^ shift) (group : Nat) :
    result ||| (group <<< shift) = result + 2 ^ shift * group := by
  rw [Nat.shiftLeft_eq, Nat.mul_comm group, Nat.or_comm, ← Nat.two_pow_add_eq_or_of_lt h,
    Nat.add_comm]

/-- A group leaves the number below the bits of the next one. -/
theorem group_lt {shift result : Nat} (hresult : result < 2 ^ shift) (b : Nat) :
    result + 2 ^ shift * (b % 128) < 2 ^ (shift + 7) := by
  have hmul : 2 ^ shift * (b % 128) ≤ 2 ^ shift * 127 := Nat.mul_le_mul_left _ (by omega)
  rw [Nat.pow_add]
  omega

/-- A group and the number behind it. -/
theorem group_sum (shift result b n : Nat) :
    result + 2 ^ shift * (b % 128) + 2 ^ (shift + 7) * n =
      result + 2 ^ shift * (b % 128 + 128 * n) := by
  rw [Nat.pow_add, Nat.mul_add, Nat.add_assoc, Nat.mul_assoc]

end Varint
