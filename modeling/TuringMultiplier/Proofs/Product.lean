import TuringMultiplier.Proofs.Addition
import TuringMultiplier.Proofs.Course

/-! The course of a whole multiplication, with a bound on its moves. One digit of the first factor
adds its place to the places that have a term; one pass of the addition takes the first two terms
together. -/

set_option autoImplicit false

namespace TuringMultiplier.Procedure

open Layout State Control Numeral

variable {first second : List Bool}

section Digits

-- Most of the work of a digit is walking to the right end and back for each cell that it appends.
theorem dispatchCost_le {used width right : Nat} (wide : 0 < width)
    (short : 2 * right ≤ 2 * width + 2 + used * (2 * width + used + 1)) :
    4 * dispatchCost used width right + (width + used + 2) ^ 4 ≤ (width + (used + 1) + 2) ^ 4 := by
  obtain ⟨more, rfl⟩ : ∃ more, width = more + 1 := ⟨width - 1, by omega⟩
  have walks := Nat.mul_le_mul_left (4 * (more + 1 + used + 1)) short
  have room : 4 * (more + 1 + used + 1) *
        (2 * (more + 1) + 2 + used * (2 * (more + 1) + used + 1)) +
      4 * (2 * (used + 1) * (more + 1) + (more + 1) * (more + 1 + 3) + 2 * used * (used + 4) + 8) +
      (more + 1 + used + 2) ^ 4 ≤ (more + 1 + (used + 1) + 2) ^ 4 := by
    ring_nf
    omega
  calc 4 * dispatchCost used (more + 1) right + (more + 1 + used + 2) ^ 4
      = 4 * (more + 1 + used + 1) * (2 * right) + 4 * (2 * (used + 1) * (more + 1) +
          (more + 1) * (more + 1 + 3) + 2 * used * (used + 4) + 8) +
          (more + 1 + used + 2) ^ 4 := by
        rw [dispatchCost]
        ring
    _ ≤ (more + 1 + (used + 1) + 2) ^ 4 := by omega

theorem le_dispatchCost (used width right : Nat) :
    2 * used + 2 ≤ dispatchCost used width right := by
  have square : 2 * used * (used + 4) = 2 * used * used + 8 * used := by ring
  rw [dispatchCost, square]
  omega

theorem length_terms_le (low : List Bool) : 2 * (terms second (places low)).length ≤
    low.length * (2 * second.length + low.length + 1) := by
  have count := Nat.mul_le_mul_right (second.length + 1) (places_length_le low)
  have sum := two_mul_sum_places low
  have split : low.length * (2 * second.length + low.length + 1) + low.length =
      2 * (low.length * (second.length + 1)) + low.length * low.length := by ring
  rw [length_terms]
  omega

/-- The digits of `low` are consumed from the right, and each `1` leaves a term for its place. -/
theorem dispatch_course (wide : second ≠ []) (high low : List Bool) :
    ∃ moves, 4 * moves + (second.length + 2) ^ 4 ≤ (second.length + low.length + 2) ^ 4 ∧
      Course low.length moves .dispatch (atDelimiter (high ++ low) 0 second [])
        .dispatch (atDelimiter high low.length second (places low)) := by
  -- On `low` from its left end: the digit in front of it is consumed after all of its own.
  induction low generalizing high with
  | nil => exact ⟨0, by simp, by simpa [places] using Course.nil⟩
  | cons b low ih =>
    obtain ⟨moves, bound, course⟩ := ih (high ++ [b])
    rw [List.append_assoc, List.singleton_append] at course
    have one := @dispatchCost_le low.length second.length (work second (places low)).length
      (List.length_pos_of_ne_nil wide)
      (by
        have := @length_terms_le second low
        rw [length_work]
        omega)
    rw [List.length_cons]
    cases b with
    | false =>
      have zero := le_dispatchCost low.length second.length (work second (places low)).length
      refine ⟨moves + (2 * low.length + 2), by omega, ?_⟩
      simpa [places] using course.trans (.single (by decide) dispatch_zero)
    | true =>
      refine ⟨moves + dispatchCost low.length second.length (work second (places low)).length,
        by omega, ?_⟩
      simpa [places] using course.trans (.single (by decide) dispatch_one)

end Digits

section Passes

theorem additionCost_le {top bottom width : Nat} (top_le : top ≤ width) (bottom_le : bottom ≤ width) :
    additionCost top bottom ≤ additionCost width width := by
  unfold additionCost
  gcongr

/-- The top term is at most one digit longer than its place asks for, and the next place asks for
one digit more, so the bottom term is never the shorter one. -/
theorem addition_course {place width : Nat} {rest : List Nat} {top : List Bool}
    (increasing : (place :: rest).Pairwise (· < ·))
    (narrow : ∀ other ∈ rest, second.length + other ≤ width)
    (length : top.length = second.length + place ∨ top.length = second.length + place + 1)
    {count : Nat} (le : count ≤ rest.length) :
    ∃ moves ≤ count * additionCost width width, ∃ sum,
      Course count moves .addition (atShift top (summands second rest))
        .addition (atShift sum (summands second (rest.drop count))) ∧
      value sum = value top + value second * ((rest.take count).map (2 ^ ·)).sum ∧
      ∀ last ∈ (place :: rest)[count]?,
        sum.length = second.length + last ∨ sum.length = second.length + last + 1 := by
  -- After a pass the sum is the top term of a shorter list, whose first place it is as long as.
  induction count generalizing place rest top with
  | zero => exact ⟨0, by simp, top, .nil, by simp, by simpa using length⟩
  | succ count ih =>
    cases rest with
    | nil => simp at le
    | cons next rest =>
      obtain ⟨before, increasing⟩ := List.pairwise_cons.mp increasing
      have behind : place < next := before next (by simp)
      have bottom : second.length + next ≤ width := narrow next (by simp)
      have fits : top.length ≤ (shifted second next).length := by
        rw [length_shifted]
        omega
      obtain ⟨first, first_le, sum, ends, total, digits⟩ :=
        @addition_ends top (shifted second next) (summands second rest) fits
      rw [length_shifted] at first_le digits
      obtain ⟨moves, moves_le, last, course, value, lengths⟩ := ih increasing
        (fun other member => narrow other (by simp [member]))
        (show sum.length = second.length + next ∨ sum.length = second.length + next + 1
          by split at digits <;> omega)
        (by simpa using le)
      refine ⟨first + moves, ?_, last, ?_, ?_, by simpa using lengths⟩
      · have := additionCost_le (show top.length ≤ width by rw [length_shifted] at fits; omega) bottom
        rw [Nat.succ_mul]
        omega
      · rw [summands_cons]
        exact .cons (by decide) ends course
      · rw [value, total, value_shifted]
        simp
        ring

end Passes

section Whole

theorem opening_course (nonempty : first ≠ []) (longer : first ≠ [false]) :
    ∃ moves ≤ first.length + 2 * second.length + 4, Course 3 moves .zeroCheck (atStart first second)
      .dispatch (atDelimiter first 0 second []) := by
  obtain ⟨moves, bound, check⟩ := @zeroCheck_nonzero first second nonempty longer
  have mark : Course 1 _ .endMark (atStart first second) .digitScan (atEndMark first second) :=
    .single (by decide) endMark_ends
  have scan : Course 1 _ .digitScan (atEndMark first second)
      .dispatch (atDelimiter first 0 second []) := .single (by decide) digitScan_ends
  refine ⟨_, ?_, (Course.single (by decide) check).trans (mark.trans scan)⟩
  omega

theorem consumed_course (nonempty : first ≠ []) (wide : second ≠ []) (longer : first ≠ [false])
    {used : Nat} (le : used ≤ first.length) :
    ∃ moves, 4 * moves + (second.length + 2) ^ 4 ≤ (first.length + second.length + 2) ^ 4 +
        4 * (first.length + 2 * second.length + 4) ∧
      Course (used + 3) moves .zeroCheck (atStart first second)
        .dispatch (atDelimiter (first.take (first.length - used)) used second
          (places (first.drop (first.length - used)))) := by
  obtain ⟨open_moves, open_le, opening⟩ := @opening_course first second nonempty longer
  obtain ⟨moves, bound, digits⟩ := dispatch_course wide (first.take (first.length - used))
    (first.drop (first.length - used))
  have low : (first.drop (first.length - used)).length = used := by
    rw [List.length_drop]
    omega
  rw [List.take_append_drop, low] at digits
  rw [low] at bound
  have grown : (second.length + used + 2) ^ 4 ≤ (first.length + second.length + 2) ^ 4 :=
    Nat.pow_le_pow_left (by omega) 4
  rw [Nat.add_comm used]
  exact ⟨_, by omega, opening.trans digits⟩

theorem digits_course (nonempty : first ≠ []) (wide : second ≠ []) (longer : first ≠ [false]) :
    ∃ moves, 4 * moves + (second.length + 2) ^ 4 ≤ (first.length + second.length + 2) ^ 4 +
        4 * (3 * first.length + 3 * second.length + 8 + (terms second (places first)).length) ∧
      Course (first.length + 5) moves .zeroCheck (atStart first second)
        .inputRemoval (atRightEnd first.length second (places first)) := by
  obtain ⟨moves, bound, digits⟩ := consumed_course nonempty wide longer le_rfl
  rw [Nat.sub_self, List.take_zero, List.drop_zero] at digits
  have leave : Course 1 _ .dispatch (atDelimiter [] first.length second (places first))
      .placeValue (atLeftEnd first.length second (places first)) := .single (by decide) dispatch_nil
  have fill : Course 1 _ .placeValue (atLeftEnd first.length second (places first))
      .inputRemoval (atRightEnd first.length second (places first)) :=
    .single (by decide) placeValue_ends
  exact ⟨_, by omega, digits.trans (leave.trans fill)⟩

-- What the passes cost at most, next to what the digits leave of the bound.
theorem passes_room (nonempty : first ≠ []) (wide : second ≠ []) :
    4 * ((first.length + second.length) * (first.length + second.length) +
        11 * (first.length + second.length) + 20 + (first.length + second.length) *
          additionCost (first.length + second.length) (first.length + second.length)) ≤
      3 * (first.length + second.length + 2) ^ 4 := by
  have first_pos := List.length_pos_of_ne_nil nonempty
  have second_pos := List.length_pos_of_ne_nil wide
  obtain ⟨more, width⟩ : ∃ more, first.length + second.length = 2 + more :=
    Nat.exists_eq_add_of_le (by omega)
  rw [width]
  unfold additionCost
  ring_nf
  omega

theorem sums_course {place : Nat} {rest : List Nat} (same : places first = place :: rest)
    {count : Nat} (le : count ≤ rest.length) :
    ∃ moves ≤ count * additionCost (first.length + second.length) (first.length + second.length),
      ∃ sum, Course count moves .addition (atShift (shifted second place) (summands second rest))
          .addition (atShift sum (summands second (rest.drop count))) ∧
        value sum = value (shifted second place) +
          value second * ((rest.take count).map (2 ^ ·)).sum ∧
        ∀ last ∈ (place :: rest)[count]?,
          sum.length = second.length + last ∨ sum.length = second.length + last + 1 := by
  have increasing := places_increasing first
  have narrow : ∀ other ∈ places first, second.length + other ≤ first.length + second.length := by
    intro other member
    have := places_lt member
    omega
  rw [same] at increasing narrow
  exact addition_course increasing (fun other member => narrow other (by simp [member]))
    (.inl (length_shifted place)) le

theorem passes_course (wide : second ≠ []) {count : Nat} (less : count < (places first).length) :
    ∃ moves, moves + 5 * (first.length + second.length) + 5 ≤ (first.length + second.length + 2) ^ 4 ∧
      ∃ sum, Course (first.length + 6 + count) moves .zeroCheck (atStart first second)
          .addition (atShift sum (summands second ((places first).drop (count + 1)))) ∧
        value sum = value second * (((places first).take (count + 1)).map (2 ^ ·)).sum ∧
        ∀ last ∈ (places first)[count]?,
          sum.length = second.length + last ∨ sum.length = second.length + last + 1 := by
  have nonempty : first ≠ [] := by
    rintro rfl
    simp [places] at less
  have longer : first ≠ [false] := by
    rintro rfl
    simp [places] at less
  obtain ⟨digit_moves, digit_le, digits⟩ := digits_course nonempty wide longer
  have terms_le := @length_terms_le second first
  have count_le := places_length_le first
  obtain ⟨place, rest, same⟩ : ∃ place rest, places first = place :: rest :=
    List.exists_cons_of_length_pos (by omega)
  rw [same] at less digits digit_le terms_le count_le ⊢
  have removal : Course 1 _ .inputRemoval (atRightEnd first.length second (place :: rest))
      .addition (atShift (shifted second place) (summands second rest)) :=
    .single (by decide) (inputRemoval_cons place)
  obtain ⟨moves, bound, sum, passes, total, lengths⟩ :=
    @sums_course first second place rest same count (Nat.le_of_lt_succ less)
  have course := (digits.trans removal).trans passes
  have advances : first.length + 5 + 1 + count = first.length + 6 + count := by omega
  rw [advances] at course
  refine ⟨_, ?_, sum, course, ?_, lengths⟩
  · have room := passes_room nonempty wide
    have square : (first.length + second.length) * (first.length + second.length) + first.length =
        first.length * (2 * second.length + first.length + 1) +
          second.length * second.length := by ring
    have passes_le := Nat.mul_le_mul_right
      (additionCost (first.length + second.length) (first.length + second.length))
      (show count ≤ first.length + second.length by omega)
    rw [length_summands]
    omega
  · rw [total, value_shifted]
    simp
    ring

/-- The moves of the whole course, with the numeral of the product at its end. -/
theorem product_course (nonempty : first ≠ []) (wide : second ≠ []) :
    ∃ advances, ∃ moves ≤ (first.length + second.length + 2) ^ 4,
      Course advances moves .zeroCheck (atStart first second)
        .done ⟨[], row (digits (value first * value second))⟩ := by
  have second_pos := List.length_pos_of_ne_nil wide
  have room := passes_room nonempty wide
  have row_zero : row (digits 0) = [.zero] := by
    rw [digits]
    rfl
  by_cases longer : first = [false]
  · subst longer
    have zero : value [false] * value second = 0 := by simp [value]
    rw [zero, row_zero]
    refine ⟨1, second.length + 4, ?_, .single (by decide) zeroCheck_zero⟩
    rw [List.length_singleton] at room ⊢
    omega
  · cases same : places first with
    | nil =>
      -- Nothing but zeros, and so no term.
      obtain ⟨moves, bound, course⟩ := digits_course nonempty wide longer
      rw [same] at course bound
      have removal : Course 1 _ .inputRemoval (atRightEnd first.length second [])
          .done ⟨[], [.zero]⟩ := .single (by decide) inputRemoval_nil
      have zero : value first * value second = 0 := by
        rw [← sum_two_pow_places first, same]
        simp
      rw [zero, row_zero]
      refine ⟨_, _, ?_, course.trans removal⟩
      rw [terms_nil, List.length_nil] at bound
      omega
    | cons place rest =>
      -- The last pass has the sum of all terms in front of it and nothing behind it.
      obtain ⟨moves, bound, sum, course, total, lengths⟩ :=
        @passes_course first second wide rest.length (by simp [same])
      obtain ⟨last, there⟩ : ∃ last, (places first)[rest.length]? = some last :=
        ⟨_, List.getElem?_eq_getElem (by simp [same])⟩
      have last_lt := places_lt (List.mem_of_getElem? there)
      have length := lengths last there
      have filled : sum ≠ [] := List.ne_nil_of_length_pos (by omega)
      have nothing : (places first).drop (rest.length + 1) = [] := by simp [same]
      have everything : (places first).take (rest.length + 1) = places first := by simp [same]
      rw [nothing] at course
      rw [everything, sum_two_pow_places] at total
      obtain ⟨clean_moves, clean_le, clean⟩ := cleanup_ends filled
      rw [strip_eq_digits filled, total, Nat.mul_comm (value second)] at clean
      have check : Course 1 _ .addition (atShift sum []) .cleanup (atProduct sum) :=
        .single (by decide) addition_last
      refine ⟨_, _, ?_, course.trans (check.trans (.single (by decide) clean))⟩
      omega

end Whole

end TuringMultiplier.Procedure
