import Mathlib.Data.Nat.Digits.Lemmas

/-!
# Decimal numerals, read digit by digit

`value` is the number that digits spell, the most significant first, and `numeral` the digits
of a number without a leading zero.  A reader that accumulates `v * 10 + d` in a bounded
integer passes through the values of all prefixes; they only grow (`value_le_append`), so that
the bound holds at every digit if it holds at the end (`foldlM_push`).
-/

namespace DecimalNumerals

/-- The number that the digits spell. -/
def value (digits : List Nat) : Nat := Nat.ofDigits 10 digits.reverse

@[simp] theorem value_nil : value [] = 0 := rfl

theorem value_append (digits more : List Nat) :
    value (digits ++ more) = value digits * 10 ^ more.length + value more := by
  rw [value, List.reverse_append, Nat.ofDigits_append, List.length_reverse, value, value,
    Nat.add_comm, Nat.mul_comm]

/-- One more digit. -/
theorem value_snoc (digits : List Nat) (d : Nat) :
    value (digits ++ [d]) = value digits * 10 + d := by
  rw [value_append, List.length_singleton, pow_one]
  simp [value]

theorem value_le_append (digits more : List Nat) : value digits ≤ value (digits ++ more) := by
  rw [value_append]
  have hpow : 1 ≤ 10 ^ more.length := Nat.one_le_pow _ _ (by norm_num)
  have hmul : value digits * 1 ≤ value digits * 10 ^ more.length :=
    Nat.mul_le_mul_left _ hpow
  omega

/-- One digit added to a value, unless the result reaches the limit. -/
def push (limit v d : Nat) : Option Nat := if v * 10 + d < limit then some (v * 10 + d) else none

/-- **Accumulation within a limit.** -/
theorem foldlM_push {limit : Nat} (hlimit : 0 < limit) (digits : List Nat) :
    digits.foldlM (push limit) 0 = if value digits < limit then some (value digits) else none := by
  induction digits using List.reverseRecOn with
  | nil => simp [hlimit]
  | append_singleton digits d ih =>
      rw [List.foldlM_append, ih]
      have hgrow := value_le_append digits [d]
      by_cases hsmall : value digits < limit
      · rw [if_pos hsmall, value_snoc]
        simp [push]
      · rw [if_neg hsmall, if_neg (by omega)]
        rfl

/-- The digits of a number, without a leading zero. -/
def numeral (n : Nat) : List Nat := if n = 0 then [0] else (Nat.digits 10 n).reverse

theorem value_numeral (n : Nat) : value (numeral n) = n := by
  unfold numeral
  split
  · simp_all [value]
  · rw [value, List.reverse_reverse, Nat.ofDigits_digits]

theorem numeral_lt_ten {n d : Nat} (hd : d ∈ numeral n) : d < 10 := by
  unfold numeral at hd
  split at hd
  · simp_all
  · exact Nat.digits_lt_base (by norm_num) (List.mem_reverse.mp hd)

end DecimalNumerals
