import TuringMultiplier.Numeral
import Mathlib.Algebra.BigOperators.Group.List.Basic
import Mathlib.Data.List.Induction
import Mathlib.Tactic.Ring

/-! Place values of binary numerals: joined numerals, the places of the ones, leading zeros. -/

set_option autoImplicit false

namespace TuringMultiplier.Numeral

theorem value_append (high low : List Bool) :
    value (high ++ low) = value high * 2 ^ low.length + value low := by
  induction low using List.reverseRecOn with
  | nil => simp
  | append_singleton low b ih =>
    rw [← List.append_assoc, value_concat, value_concat, ih]
    simp only [List.length_append, List.length_singleton, pow_succ]
    ring

theorem value_cons (b : Bool) (low : List Bool) :
    value (b :: low) = b.toNat * 2 ^ low.length + value low := by
  have single : value [b] = b.toNat := by cases b <;> rfl
  rw [← List.singleton_append, value_append, single]

theorem value_lt (bits : List Bool) : value bits < 2 ^ bits.length := by
  induction bits with
  | nil => simp
  | cons b low ih =>
    rw [value_cons, List.length_cons, pow_succ]
    cases b <;> simp <;> omega

@[simp] theorem value_replicate_false (count : Nat) : value (List.replicate count false) = 0 := by
  induction count with
  | zero => rfl
  | succ count ih => rw [List.replicate_succ, value_cons, ih]; simp

theorem value_replicate_true (count : Nat) :
    value (List.replicate count true) + 1 = 2 ^ count := by
  induction count with
  | zero => rfl
  | succ count ih =>
    rw [List.replicate_succ, value_cons, List.length_replicate, pow_succ]
    simp only [Bool.toNat_true]
    omega

theorem value_carried (high : List Bool) (ones : Nat) :
    value (high ++ true :: List.replicate ones false) =
      value (high ++ false :: List.replicate ones true) + 1 := by
  have filled := value_replicate_true ones
  rw [value_append, value_append, value_cons, value_cons, value_replicate_false]
  simp only [List.length_cons, List.length_replicate, Bool.toNat_true, Bool.toNat_false]
  omega

/-- Counting from the right end, the places that hold a one, the lowest first. -/
def places : List Bool → List Nat
  | [] => []
  | b :: low => places low ++ if b then [low.length] else []

theorem mem_places {bits : List Bool} {place : Nat} :
    place ∈ places bits ↔ bits.reverse[place]? = some true := by
  induction bits with
  | nil => simp [places]
  | cons b low ih =>
    rw [places, List.mem_append, ih, List.reverse_cons]
    rcases Nat.lt_trichotomy place low.length with less | rfl | more
    · rw [List.getElem?_append_left (by simpa using less)]
      cases b <;> simp [Nat.ne_of_lt less]
    · rw [List.getElem?_append_right (by simp), List.getElem?_eq_none (by simp)]
      cases b <;> simp
    · rw [List.getElem?_eq_none (by simp; omega), List.getElem?_eq_none (by simp; omega)]
      cases b <;> simp [Nat.ne_of_gt more]

theorem places_lt {bits : List Bool} {place : Nat} (member : place ∈ places bits) :
    place < bits.length := by
  rw [mem_places] at member
  simpa using (List.getElem?_eq_some_iff.mp member).1

theorem places_increasing (bits : List Bool) : (places bits).Pairwise (· < ·) := by
  induction bits with
  | nil => exact .nil
  | cons b low ih =>
    rw [places, List.pairwise_append]
    refine ⟨ih, by cases b <;> simp, ?_⟩
    intro place member other last
    have : other = low.length := by cases b <;> simp_all
    rw [this]
    exact places_lt member

theorem two_mul_sum_places (bits : List Bool) :
    2 * (places bits).sum + bits.length ≤ bits.length * bits.length := by
  induction bits with
  | nil => rfl
  | cons b low ih =>
    have square : (low.length + 1) * (low.length + 1) =
      low.length * low.length + 2 * low.length + 1 := by ring
    rw [places, List.sum_append, List.length_cons, square]
    cases b <;> simp <;> omega

theorem sum_two_pow_places (bits : List Bool) :
    ((places bits).map (2 ^ ·)).sum = value bits := by
  induction bits with
  | nil => rfl
  | cons b low ih =>
    rw [places, List.map_append, List.sum_append, ih, value_cons]
    cases b <;> simp [Nat.add_comm]

theorem length_places (bits : List Bool) : (places bits).length = bits.count true := by
  induction bits with
  | nil => rfl
  | cons b low ih => cases b <;> simp [places, ih]

theorem places_length_le (bits : List Bool) : (places bits).length ≤ bits.length := by
  rw [length_places]
  exact List.count_le_length

/-- A carry runs through the ones at the low end and lands on the zero in front of them, unless
there is none. -/
theorem split_ones (bits : List Bool) :
    (∃ high ones, bits = high ++ false :: List.replicate ones true) ∨
      bits = List.replicate bits.length true := by
  induction bits with
  | nil => exact .inr rfl
  | cons b low ih =>
    rcases ih with ⟨high, ones, rfl⟩ | all
    · exact .inl ⟨b :: high, ones, rfl⟩
    · cases b with
      | false => exact .inl ⟨[], low.length, by simpa using all⟩
      | true => exact .inr (by simpa [List.replicate_succ] using all)

theorem exists_low {bits : List Bool} {width : Nat} (short : width < bits.length) :
    ∃ high b low, bits = high ++ [b] ++ low ∧ low.length = width := by
  rcases List.eq_nil_or_concat' (bits.take (bits.length - width)) with none_ | ⟨high, b, cut⟩
  · have := congrArg List.length none_
    simp at this
    omega
  · refine ⟨high, b, bits.drop (bits.length - width), ?_, ?_⟩
    · rw [← cut, List.take_append_drop]
    · rw [List.length_drop]
      omega

section Carries

/-- The value of the low digits and of the high ones, with a carry into the last of these. -/
def carriedValue (carry : Bool) (high low : List Bool) : Nat :=
  value low + 2 ^ low.length * (carry.toNat + value high)

variable {carry : Bool} {high low : List Bool}

theorem ones_of_overflow (full : 2 ^ (high.length + low.length) ≤ carriedValue carry high low) :
    carry = true ∧ high = List.replicate high.length true := by
  have low_lt := value_lt low
  rw [Nat.add_comm high.length, pow_add, carriedValue] at full
  have small {n : Nat} (less : n < 2 ^ high.length) :
      value low + 2 ^ low.length * n < 2 ^ low.length * 2 ^ high.length := by
    have := Nat.mul_le_mul_left (2 ^ low.length) (Nat.succ_le_of_lt less)
    rw [Nat.mul_succ] at this
    omega
  cases carry with
  | false =>
    have := small (value_lt high)
    simp at full
    omega
  | true =>
    rcases split_ones high with ⟨before, ones, same⟩ | all
    · have less : 1 + value high < 2 ^ high.length := by
        have carried := value_lt (before ++ true :: List.replicate ones false)
        rw [value_carried, ← same, Nat.add_comm] at carried
        simpa [same] using carried
      have := small less
      rw [Bool.toNat_true] at full
      omega
    · exact ⟨rfl, all⟩

theorem value_overflow (full : 2 ^ (high.length + low.length) ≤ carriedValue carry high low) :
    value (true :: (List.replicate high.length false ++ low)) = carriedValue carry high low := by
  obtain ⟨rfl, all⟩ := ones_of_overflow full
  have carried := value_carried [] high.length
  rw [List.nil_append, List.nil_append, value_cons false, ← all] at carried
  rw [← List.cons_append, value_append, carried, carriedValue]
  simp
  ring

end Carries

section Canonical

/-- Without leading zeros; a zero that is all there is stays. -/
def strip : List Bool → List Bool
  | false :: b :: low => strip (b :: low)
  | bits => bits

theorem digits_value_cons_true (low : List Bool) :
    digits (value (true :: low)) = true :: low := by
  induction low using List.reverseRecOn with
  | nil => rw [digits]; rfl
  | append_singleton low b ih =>
    have positive : 0 < value (true :: low) := by
      rw [value_cons]
      have : 0 < 2 ^ low.length := Nat.two_pow_pos _
      simp only [Bool.toNat_true]
      omega
    rw [← List.cons_append, value_concat, digits]
    have half : (2 * value (true :: low) + b.toNat) / 2 = value (true :: low) := by
      cases b <;> simp
      omega
    have last : ((2 * value (true :: low) + b.toNat) % 2 == 1) = b := by
      cases b <;> simp
    rw [if_neg (by omega), half, last, ih]

theorem strip_eq_digits {bits : List Bool} (nonempty : bits ≠ []) :
    strip bits = digits (value bits) := by
  induction bits with
  | nil => exact absurd rfl nonempty
  | cons b low ih =>
    cases b with
    | true => rw [digits_value_cons_true, strip]; simp
    | false =>
      cases low with
      | nil => rw [strip, digits]; rfl; simp
      | cons c low =>
        rw [strip, ih (by simp), value_cons false]
        simp

theorem digits_length_le {n width : Nat} (fits : n < 2 ^ width) (positive : 0 < width) :
    (digits n).length ≤ width := by
  induction width generalizing n with
  | zero => omega
  | succ width ih =>
    rw [digits]
    split
    · simp
    · next large =>
      rw [List.length_append, List.length_singleton]
      have : 0 < width := by
        apply Nat.pos_of_ne_zero
        rintro rfl
        simp at fits
        omega
      have := ih (n := n / 2) (by rw [pow_succ] at fits; omega) this
      omega

end Canonical

end TuringMultiplier.Numeral
