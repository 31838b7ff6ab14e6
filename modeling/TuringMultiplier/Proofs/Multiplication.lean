import TuringMultiplier.Batch
import TuringMultiplier.Proofs.Input
import TuringMultiplier.Proofs.Product

/-! What a machine does with an input of two numerals: the tape it shows between two advances, the
product it ends with, and the moves it makes. -/

set_option autoImplicit false

namespace TuringMultiplier.Machine

open Layout Numeral Procedure

variable {first second : List Bool}

/-- Every run that is allowed the moves ends with the numeral of the product. -/
theorem calculate_inputText (nonempty : first ≠ []) (nonempty' : second ≠ []) :
    ∃ moves ≤ (first.length + second.length + 2) ^ 4, ∀ config : Config,
      Symbol.isReserved config.separator = false → ∀ patience, config.Allows patience moves →
        ∃ fresh after, ofInput (inputText first second config.separator) config = .ok fresh ∧
          fresh.calculate patience = (.done (), after) ∧
          after.Stands .done ⟨[], row (digits (value first * value second))⟩ ∧
          after.steps = moves := by
  obtain ⟨advances, moves, bound, course⟩ := product_course nonempty nonempty'
  refine ⟨moves, bound, ?_⟩
  intro config free patience allows
  obtain ⟨fresh, built, stands, steps, stepLimit, -⟩ := ofInput_inputText nonempty nonempty' free
  have affords := allows.affords le_rfl steps stepLimit
  obtain ⟨after, calculated, there, reaches⟩ := calculate_of_course course stands affords
  refine ⟨fresh, after, built, calculated, there, ?_⟩
  rw [Machine.steps, reaches.steps, steps, Nat.zero_add]

/-- Whatever the separator and the mode, one number of moves is enough for the product, and the head
ends on its first digit. -/
theorem calculate_product (nonempty : first ≠ []) (nonempty' : second ≠ []) :
    ∃ moves, ∀ config : Config, Symbol.isReserved config.separator = false →
      ∀ patience, config.Allows patience moves →
        ∃ fresh after, ofInput (inputText first second config.separator) config = .ok fresh ∧
          fresh.calculate patience = (.done (), after) ∧ after.phase = .done ∧
          after.steps = moves ∧ after.content = Numeral.text (value first * value second) ∧
          after.render = "Q" ++ Numeral.text (value first * value second) := by
  obtain ⟨moves, -, run⟩ := calculate_inputText nonempty nonempty'
  refine ⟨moves, ?_⟩
  intro config free patience allows
  obtain ⟨fresh, after, built, calculated, stands, steps⟩ := run config free patience allows
  obtain ⟨content, render⟩ := stands.content (digits_ne_nil _)
  exact ⟨fresh, after, built, calculated, stands.phase, steps, content, render⟩

theorem calculate_three_times_two : ∃ patience fresh after,
    ofInput "11x10" { stepLimit := none } = .ok fresh ∧
      fresh.calculate patience = (.done (), after) ∧ after.content = "110" := by
  obtain ⟨moves, run⟩ := calculate_product (show [true, true] ≠ [] by decide)
    (show [true, false] ≠ [] by decide)
  obtain ⟨fresh, after, built, calculated, -, -, content, -⟩ :=
    run { stepLimit := none } (by decide) (moves + 1) (Nat.lt_succ_self moves)
  refine ⟨moves + 1, fresh, after, built, calculated, content.trans ?_⟩
  simp [Numeral.text, value, digits, digitChar]

section Digits

/-- The first factor with its last `used` digits consumed, the second factor, and a term for each
one among those digits. -/
def digitsText (first second : List Bool) (separator : Char) (used : Nat) : List Char :=
  (first.take (first.length - used)).map digitChar ++ List.replicate used 'd' ++
    separator :: (second.map digitChar ++ 'y' ::
      (places (first.drop (first.length - used))).flatMap fun place =>
        second.map digitChar ++ List.replicate place 's' ++ ['y'])

/-- Between two digits the head is on the delimiter, the second factor is whole again, and none of
the marks that a digit needs on the way is left. -/
theorem history_dispatch (nonempty : first ≠ []) (nonempty' : second ≠ []) (longer : first ≠ [false])
    {config : Config} (free : Symbol.isReserved config.separator = false) {patience : Nat}
    (allows : config.Allows patience ((first.length + second.length + 2) ^ 4)) :
    ∃ fresh, ofInput (inputText first second config.separator) config = .ok fresh ∧
      ∀ used ≤ first.length, ∃ after,
        (fresh.history patience)[2 + used]? = some (.done .dispatch, after) ∧
          after.phase = .dispatch ∧ after.head.symbol = .delimiter ∧
          after.head.position = first.length ∧
          after.content = String.ofList (digitsText first second config.separator used) ∧
          ∀ s ∈ [Symbol.tenner, .standInZero, .standInOne], s ∉ after.head.tape.cells := by
  obtain ⟨fresh, built, stands, steps, stepLimit, separator⟩ :=
    ofInput_inputText nonempty nonempty' free
  refine ⟨fresh, built, ?_⟩
  intro used le
  obtain ⟨moves, bound, course⟩ := consumed_course nonempty nonempty' longer le
  have room := passes_room nonempty nonempty'
  have affords := allows.affords (show moves ≤ (first.length + second.length + 2) ^ 4 by omega)
    steps stepLimit
  rw [show used + 3 = 2 + used + 1 by omega] at course
  obtain ⟨after, found, there, reaches⟩ := history_of_course course stands affords
  obtain ⟨symbol, position, cells⟩ := there.stored (by decide)
  rw [List.reverse_append, List.reverse_reverse, List.reverse_replicate] at cells
  refine ⟨after, found, there.phase, symbol, ?_, ?_, ?_⟩
  · rw [position]
    simp
    omega
  · rw [Machine.content, Tape.content, cells, reaches.separator, separator]
    simp [digitsText, work, Symbol.map_glyph_row, Symbol.map_glyph_terms, Symbol.glyph]
  · intro s mark stored
    rw [← Array.mem_toList_iff, cells] at stored
    have within : row (first.take (first.length - used)) ++ List.replicate used .consumed ++
        .delimiter :: work second (places (first.drop (first.length - used))) ⊆
        [Symbol.zero, .one, .consumed, .delimiter, .shift, .endMark] := by
      simp [work]
    simp only [List.mem_cons, List.not_mem_nil, or_false] at mark
    rcases mark with rfl | rfl | rfl <;> exact absurd (within stored) (by decide)

theorem history_dispatch_three_times_two : ∃ fresh after,
    ofInput "11x10" {} = .ok fresh ∧ (fresh.history 0)[4]? = some (.done .dispatch, after) ∧
      after.content = "ddx10y10y10sy" := by
  obtain ⟨fresh, built, run⟩ := @history_dispatch [true, true] [true, false] (by decide) (by decide)
    (by decide) {} (by decide) 0 (show (2 + 2 + 2) ^ 4 ≤ 2 ^ 32 by decide)
  obtain ⟨after, found, -, -, -, content, -⟩ := run 2 (by decide)
  exact ⟨fresh, after, built, found, content⟩

end Digits

section Terms

/-- What is left of the factors: a number for each place behind the start mark, or else a zero. -/
def termsText (second : List Bool) : List Nat → List Char
  | [] => ['0']
  | place :: places => 's' :: (place :: places).flatMap fun place =>
      second.map digitChar ++ List.replicate place '0' ++ ['y']

theorem map_glyph_atTerms (separator : Char) (places : List Nat) :
    ((atTerms second places).ahead).map (Symbol.glyph separator) = termsText second places := by
  cases places with
  | nil => rfl
  | cons place places =>
    have row : atTerms second (place :: places) =
        ⟨[], .shift :: summands second (place :: places)⟩ := by
      rw [summands_cons]
      rfl
    rw [row, List.map_cons, Symbol.map_glyph_summands]
    rfl

theorem stored_atTerms (places : List Nat) : ∃ s ahead, s ≠ .blank ∧
    atTerms second places = ⟨[], s :: ahead⟩ := by
  cases places with
  | nil => exact ⟨.zero, [], by decide, rfl⟩
  | cons place places => exact ⟨.shift, _, by decide, rfl⟩

/-- Once the last digit is consumed, two advances are made. They fill the terms up with zeros and
take the factors away, and the terms are left: one for each `1` of the first factor, as it was
written, in the order of their places. -/
theorem history_terms (nonempty : first ≠ []) (nonempty' : second ≠ []) (longer : first ≠ [false]) :
    ∃ moves ≤ (first.length + second.length + 2) ^ 4, ∀ config : Config,
      Symbol.isReserved config.separator = false → ∀ patience, config.Allows patience moves →
        ∃ fresh left filled after,
          ofInput (inputText first second config.separator) config = .ok fresh ∧
            (fresh.history patience)[first.length + 3]? = some (.done .placeValue, left) ∧
            left.advance patience = (.done .inputRemoval, filled) ∧
            filled.advance patience = (.done after.phase, after) ∧
            after.phase = (if places first = [] then .done else .addition) ∧
            after.head.position = 0 ∧ after.steps = moves ∧
            after.content = String.ofList (termsText second (places first)) := by
  obtain ⟨consumed_moves, consumed_le, consumed⟩ :=
    consumed_course nonempty nonempty' longer le_rfl
  rw [Nat.sub_self, List.take_zero, List.drop_zero] at consumed
  have leave : Course 1 _ .dispatch (atDelimiter [] first.length second (places first))
      .placeValue (atLeftEnd first.length second (places first)) := .single (by decide) dispatch_nil
  have course := consumed.trans leave
  have fill := @placeValue_ends first.length second (places first)
  obtain ⟨removal_moves, removal_le, remove⟩ := @inputRemoval_ends first.length second (places first)
  have bound : consumed_moves + (first.length + 1) +
      (first.length + second.length + (terms second (places first)).length + 3 + removal_moves) ≤
      (first.length + second.length + 2) ^ 4 := by
    have room := passes_room nonempty nonempty'
    have terms_le := @length_terms_le second first
    have square : (first.length + second.length) * (first.length + second.length) + first.length =
        first.length * (2 * second.length + first.length + 1) +
          second.length * second.length := by ring
    rw [length_summands] at removal_le
    omega
  refine ⟨_, bound, ?_⟩
  intro config free patience allows
  obtain ⟨fresh, built, stands, steps, stepLimit, separator⟩ :=
    ofInput_inputText nonempty nonempty' free
  have affords := allows.affords le_rfl steps stepLimit
  obtain ⟨left, found, stands_left, reaches_left⟩ :=
    history_of_course course stands (affords.of_le (Nat.le_add_right ..))
  have affords_left := reaches_left.affords affords
  obtain ⟨filled, advanced, stands_filled, reaches_filled⟩ :=
    advance_of_ends stands_left fill (affords_left.of_le (Nat.le_add_right ..))
  obtain ⟨after, removed, stands_after, reaches_after⟩ :=
    advance_of_ends stands_filled remove (reaches_filled.affords affords_left)
  have reaches := reaches_left.trans (reaches_filled.trans reaches_after)
  obtain ⟨s, ahead, solid, span⟩ := @stored_atTerms second (places first)
  have glyphs := @map_glyph_atTerms second config.separator (places first)
  rw [span] at stands_after glyphs
  obtain ⟨-, position, cells⟩ := stands_after.stored solid
  refine ⟨fresh, left, filled, after, built, found, advanced, stands_after.phase ▸ removed, ?_,
    position, ?_, ?_⟩
  · rw [stands_after.phase]
    cases places first <;> rfl
  · rw [Machine.steps, reaches.steps, steps, Nat.zero_add]
  · rw [Machine.content, Tape.content, cells, reaches.separator, separator]
    exact congrArg String.ofList glyphs

theorem history_terms_three_times_two : ∃ fresh left filled after : Machine,
    ofInput "11x10" { stepLimit := none } = .ok fresh ∧
      left.advance 1297 = (.done .inputRemoval, filled) ∧
      filled.advance 1297 = (.done .addition, after) ∧ after.phase = .addition ∧
      after.content = "s10y100y" := by
  obtain ⟨moves, bound, run⟩ := @history_terms [true, true] [true, false] (by decide) (by decide)
    (by decide)
  have patient : moves < 1297 := Nat.lt_of_le_of_lt bound (by decide)
  obtain ⟨fresh, left, filled, after, built, -, advanced, removed, phase, -, -, content⟩ :=
    run { stepLimit := none } (by decide) 1297 patient
  rw [phase] at removed
  exact ⟨fresh, left, filled, after, built, advanced, removed, phase, content⟩

end Terms

section Passes

def passesText (sum second : List Bool) (places : List Nat) : List Char :=
  's' :: (sum.map digitChar ++ 'y' :: places.flatMap fun place =>
    second.map digitChar ++ List.replicate place '0' ++ ['y'])

/-- Between two passes the first number is the second factor times the low ones of the first one. It
is at most one digit longer than its last place asks for, so it never is the longer one of the two
numbers that a pass adds, and the fuse is the only fault there is. -/
theorem history_addition (nonempty : first ≠ []) (nonempty' : second ≠ []) {config : Config}
    (free : Symbol.isReserved config.separator = false) :
    ∃ fresh, ofInput (inputText first second config.separator) config = .ok fresh ∧
      (∀ patience, config.Allows patience ((first.length + second.length + 2) ^ 4) →
        ∀ (count place : Nat), (places first)[count]? = some place → ∃ after sum,
          (fresh.history patience)[first.length + 5 + count]? = some (.done .addition, after) ∧
            after.phase = .addition ∧ after.head.symbol = .shift ∧ after.head.position = 0 ∧
            after.content =
              String.ofList (passesText sum second ((places first).drop (count + 1))) ∧
            value sum = value second * (((places first).take (count + 1)).map (2 ^ ·)).sum ∧
            (sum.length = second.length + place ∨ sum.length = second.length + place + 1) ∧
            ∀ next ∈ (places first)[count + 1]?, sum.length ≤ second.length + next) ∧
      ∀ led, fresh.Leads led → ∀ patience fault,
        (led.advance patience).1 = .failed fault ∨ (led.calculate patience).1 = .failed fault →
          ∃ limit, config.stepLimit = some limit ∧ fault = .stepLimitExceeded limit := by
  obtain ⟨fresh, built, stands, steps, stepLimit, separator⟩ :=
    ofInput_inputText nonempty nonempty' free
  refine ⟨fresh, built, ?_, ?_⟩
  · intro patience allows count place there
    obtain ⟨less, -⟩ := List.getElem?_eq_some_iff.mp there
    obtain ⟨moves, bound, sum, course, total, lengths⟩ := @passes_course first second nonempty' _ less
    have affords := allows.affords (show moves ≤ (first.length + second.length + 2) ^ 4 by omega)
      steps stepLimit
    rw [show first.length + 6 + count = first.length + 5 + count + 1 by omega] at course
    obtain ⟨after, found, stands, reaches⟩ := history_of_course course stands affords
    obtain ⟨symbol, position, cells⟩ := stands.stored (by decide)
    refine ⟨after, sum, found, stands.phase, symbol, position, ?_, total, lengths place there, ?_⟩
    · rw [Machine.content, Tape.content, cells, reaches.separator, separator]
      simp [passesText, Symbol.map_glyph_row, Symbol.map_glyph_summands, Symbol.glyph]
    · intro next next_there
      have digits := lengths place there
      obtain ⟨next_less, rfl⟩ := List.getElem?_eq_some_iff.mp next_there
      obtain ⟨less, rfl⟩ := List.getElem?_eq_some_iff.mp there
      have increasing := List.pairwise_iff_getElem.mp (places_increasing first) count (count + 1)
        less next_less (Nat.lt_succ_self count)
      omega
  · -- The machine stays on the course of the product, which no other fault is on.
    intro led leads patience fault failed
    obtain ⟨advances, moves, -, course⟩ := product_course nonempty nonempty'
    have on : fresh.OnCourse := fun _ =>
      ⟨advances, moves, _, _, stands.shown, stands.phase ▸ course⟩
    obtain ⟨on, kept⟩ := leads.onCourse on
    rw [← stepLimit, ← kept]
    rcases failed with failed | failed
    · rcases on.advance patience with unfinished | ⟨-, refused⟩
      · rw [unfinished] at failed
        cases failed
      · exact refused fault failed
    · exact on.advanceUntilDone failed

theorem history_addition_three_times_two : ∃ fresh after sum,
    ofInput "11x10" {} = .ok fresh ∧ (fresh.history 0)[8]? = some (.done .addition, after) ∧
      after.content = String.ofList (passesText sum [true, false] []) ∧ value sum = 6 := by
  obtain ⟨fresh, built, passes, -⟩ := @history_addition [true, true] [true, false] (by decide)
    (by decide) {} (by decide)
  obtain ⟨after, sum, found, -, -, -, content, total, -⟩ :=
    passes 0 (show (2 + 2 + 2) ^ 4 ≤ 2 ^ 32 by decide) 1 1 (by decide)
  exact ⟨fresh, after, sum, built, found, content, total⟩

end Passes

section Moves

theorem input_eq_inputText (first second : Nat) (separator : Char) :
    Round.input first second separator = inputText (digits first) (digits second) separator := by
  apply String.toList_inj.mp
  simp [Round.input, inputText, Numeral.text]

/-- A run makes at most as many moves as the fourth power of the length of its input and one, and so
the default limit is enough for factors of 64 bits. -/
theorem calculate_steps_le :
    (∀ first second : List Bool, first ≠ [] → second ≠ [] → ∀ config : Config,
      Symbol.isReserved config.separator = false → config.stepLimit = none →
      ∀ patience > (first.length + second.length + 2) ^ 4, ∃ fresh after,
        ofInput (inputText first second config.separator) config = .ok fresh ∧
          fresh.calculate patience = (.done (), after) ∧
          after.steps ≤ (first.length + second.length + 2) ^ 4) ∧
    ∀ (first second : UInt64) (config : Config), Symbol.isReserved config.separator = false →
      (∀ limit ∈ config.stepLimit, 2 ^ 32 ≤ limit) → ∀ patience ≥ 2 ^ 32, ∃ round,
        Round.run patience first.toNat second.toNat config = some round ∧ round.mismatch = none := by
  constructor
  · intro first second nonempty nonempty' config free unlimited patience patient
    obtain ⟨moves, bound, run⟩ := calculate_inputText nonempty nonempty'
    have allows : config.Allows patience moves := by
      simp only [Config.Allows, unlimited]
      omega
    obtain ⟨fresh, after, built, calculated, -, steps⟩ := run config free patience allows
    exact ⟨fresh, after, built, calculated, steps ▸ bound⟩
  · intro first second config free limits patience patient
    obtain ⟨moves, bound, run⟩ := calculate_inputText (digits_ne_nil first.toNat)
      (digits_ne_nil second.toNat)
    have short (n : UInt64) : (digits n.toNat).length ≤ 64 :=
      digits_length_le n.toNat_lt (by decide)
    -- 130 is twice 64 and 2, and its fourth power is below the limit.
    have small : moves ≤ 130 ^ 4 := by
      have widths : (digits first.toNat).length + (digits second.toNat).length + 2 ≤ 130 := by
        have := short first
        have := short second
        omega
      exact bound.trans (Nat.pow_le_pow_left widths 4)
    have allows : config.Allows patience moves := by
      unfold Config.Allows
      cases limit : config.stepLimit with
      | none => simp only; omega
      | some limit' =>
        have := limits limit' limit
        simp only
        omega
    obtain ⟨fresh, after, built, calculated, stands, steps⟩ := run config free patience allows
    obtain ⟨content, -⟩ := stands.content (digits_ne_nil _)
    rw [value_digits, value_digits] at content
    refine ⟨⟨moves, none⟩, ?_, rfl⟩
    rw [Round.run, input_eq_inputText, built]
    have written : String.ofList ((digits (first.toNat * second.toNat)).map digitChar) =
      Numeral.text (first.toNat * second.toNat) := rfl
    simp only [calculated, Round.judge, content, steps, if_pos written]

theorem calculate_steps_le_largest :
    (∃ fresh after, ofInput "11x10" { stepLimit := none } = .ok fresh ∧
      fresh.calculate (6 ^ 4 + 1) = (.done (), after) ∧ after.steps ≤ 6 ^ 4) ∧
    ∃ round, Round.run (2 ^ 32) (18446744073709551615 : UInt64).toNat (3 : UInt64).toNat {} =
      some round ∧ round.mismatch = none := by
  constructor
  · exact calculate_steps_le.1 [true, true] [true, false] (by decide) (by decide)
      { stepLimit := none } (by decide) rfl (6 ^ 4 + 1) (by decide)
  · have limits : ∀ limit ∈ Config.stepLimit {}, 2 ^ 32 ≤ limit := by
      intro limit member
      exact (Option.some.inj member).le
    exact calculate_steps_le.2 18446744073709551615 3 {} (by decide) limits (2 ^ 32) le_rfl

end Moves

end TuringMultiplier.Machine
