/-! Binary numerals, most significant digit first. `digits n` is the one numeral of `n` without a
leading zero, and `value` reads any numeral, leading zeros included. -/

set_option autoImplicit false

namespace TuringMultiplier.Numeral

/-- Zero has the numeral `[false]`; no other numeral starts with `false`. -/
def digits (n : Nat) : List Bool :=
  if n < 2 then [n == 1] else digits (n / 2) ++ [n % 2 == 1]
termination_by n

/-- The empty list counts as zero, although it is not the numeral of any number. -/
def value (bits : List Bool) : Nat := bits.foldl (fun v b => 2 * v + b.toNat) 0

def digitChar (b : Bool) : Char := if b then '1' else '0'

def ofDigitChar : Char → Option Bool
  | '0' => some false
  | '1' => some true
  | _ => none

def isDigit (c : Char) : Bool := (ofDigitChar c).isSome

def text (n : Nat) : String := String.ofList ((digits n).map digitChar)

@[simp] theorem value_nil : value [] = 0 := rfl

theorem value_concat (bits : List Bool) (b : Bool) :
    value (bits ++ [b]) = 2 * value bits + b.toNat := by
  simp [value, List.foldl_append]

theorem digits_ne_nil (n : Nat) : digits n ≠ [] := by
  rw [digits]; split <;> simp

theorem value_digits (n : Nat) : value (digits n) = n := by
  induction n using digits.induct with
  | case1 n small =>
    rw [digits, if_pos small]
    have : n = 0 ∨ n = 1 := by omega
    rcases this with rfl | rfl <;> rfl
  | case2 n large ih =>
    rw [digits, if_neg large, value_concat, ih]
    have : n % 2 = 0 ∨ n % 2 = 1 := by omega
    rcases this with h | h <;> simp [h] <;> omega

@[simp] theorem ofDigitChar_digitChar (b : Bool) : ofDigitChar (digitChar b) = some b := by
  cases b <;> rfl

end TuringMultiplier.Numeral
