import TuringMultiplier.Proofs.Removal
import TuringMultiplier.Column

/-! One pass of the addition. The columns are added lowest digit first: a top digit is used up, the
bottom digit of its column becomes the mark of a sum digit, and the control keeps the carry. When the
top term is used up, the carry goes into what is left of the bottom term, the marks turn into digits,
and the top term is erased. What follows the bottom term is never looked at, and what stands in front
of its digits is looked at by a column or by the carry only. -/

set_option autoImplicit false

namespace TuringMultiplier.Procedure

open Layout State Control
open TuringMultiplier.Symbol
  (zero one delimiter blank consumed endMark tenner shift standInZero standInOne digit standIn)

variable {top done : List Bool} {used : Nat} {bottom front behind below rest : List Symbol}

/-- The symbols that a pass goes over in a bottom term: the digits, and the marks that it neither
uses nor puts there. -/
def passed : List Symbol := [zero, one, delimiter, consumed, tenner]

@[simp] theorem mem_passed {s : Symbol} : s ∈ passed ↔
    s = zero ∨ s = one ∨ s = delimiter ∨ s = consumed ∨ s = tenner := by
  simp [passed]

section Columns

/-- Right of the start mark, between two columns: `used` digits of the top term are used up, and
`done` holds the sum digits of their columns. -/
def atColumn (top : List Bool) (used : Nat) (bottom : List Symbol) (done : List Bool)
    (rest : List Symbol) : Span :=
  ⟨[shift], row top ++ (List.replicate used consumed ++
    endMark :: (bottom ++ (parked done ++ endMark :: rest)))⟩

-- Going right over digits, the head meets the first sum digit or the end mark.
theorem done_turn {q r : State}
    (turns : ∀ s ∈ [standInZero, standInOne, endMark], table q s = .go [] .left r)
    (done : List Bool) :
    table.Path 1 q ⟨behind, parked done ++ endMark :: rest⟩
      r (Span.leftOf behind (parked done ++ endMark :: rest)) := by
  cases done with
  | nil => exact .left (turns endMark (by simp)) (by decide)
  | cons b done =>
    cases b with
    | false => exact .left (turns standInZero (by simp)) (by decide)
    | true => exact .left (turns standInOne (by simp)) (by decide)

-- Going right into the bottom term, the head looks at its first symbol only.
theorem bottom_turn {q r : State} (turns : ∀ s ∈ endMark :: passed, table q s = .go [] .left r)
    (within : bottom ⊆ passed) : table.Path 1 q ⟨behind, bottom ++ endMark :: rest⟩
      r (Span.leftOf behind (bottom ++ endMark :: rest)) := by
  cases bottom with
  | nil => exact .left (turns endMark (by simp)) (by decide)
  | cons s bottom =>
    have member : s ∈ passed := within (List.mem_cons_self ..)
    refine .left (turns s (List.mem_cons_of_mem _ member)) ?_
    rintro rfl
    simp at member

theorem addition_enter (within : bottom ⊆ passed) : table.Path (2 * top.length + 5)
    additionStart (atShift top (bottom ++ endMark :: rest))
    (topEnd false) (atColumn top 0 bottom [] rest) := by
  have out : table.Path (shift :: row top).length
      additionStart ⟨[], (shift :: row top) ++ endMark :: (bottom ++ endMark :: rest)⟩
      additionStart ⟨(shift :: row top).reverse ++ [],
        endMark :: (bottom ++ endMark :: rest)⟩ :=
    .scanRight [zero, one, shift] (by decide) (by simp)
  rw [List.append_nil] at out
  have look : table.Path 1
      additionStart ⟨(shift :: row top).reverse, endMark :: (bottom ++ endMark :: rest)⟩
      additionCheck ⟨endMark :: (shift :: row top).reverse, bottom ++ endMark :: rest⟩ :=
    .right rfl (by decide)
  have back : table.Path 1
      additionCheck ⟨endMark :: (shift :: row top).reverse, bottom ++ endMark :: rest⟩
      additionReturn (Span.leftOf (endMark :: (row top).reverse ++ [shift])
        (bottom ++ endMark :: rest)) := by
    rw [List.reverse_cons]
    exact bottom_turn (by decide) within
  have home : table.Path ((endMark :: (row top).reverse).length + 1)
      additionReturn (Span.leftOf (endMark :: (row top).reverse ++ [shift])
        (bottom ++ endMark :: rest))
      (topEnd false) ⟨[shift], (endMark :: (row top).reverse).reverse ++
        (bottom ++ endMark :: rest)⟩ :=
    .scanBack [zero, one, endMark] (by decide) rfl (by simp) (by decide)
  convert (out.trans look).trans (back.trans home) using 1
  · simp
    omega
  · simp [atShift]
  · simp [atColumn]

theorem column_take (carry x : Bool) : table.Path (top.length + 3 * used + 4)
    (topEnd carry) ⟨[shift], row (top ++ [x]) ++ (List.replicate used consumed ++ endMark :: below)⟩
    (bottomEnd carry x) ⟨endMark :: (List.replicate (used + 1) consumed ++
      ((row top).reverse ++ [shift])), below⟩ := by
  have out : table.Path (row (top ++ [x]) ++ List.replicate used consumed).length
      (topEnd carry) ⟨[shift],
        (row (top ++ [x]) ++ List.replicate used consumed) ++ endMark :: below⟩
      (topEnd carry) ⟨(row (top ++ [x]) ++ List.replicate used consumed).reverse ++ [shift],
        endMark :: below⟩ :=
    .scanRight [zero, one, consumed] (by cases carry <;> decide) (by simp [-row_append])
  have reversed : (row (top ++ [x]) ++ List.replicate used consumed).reverse ++ [shift] =
    List.replicate used consumed ++ digit x :: ((row top).reverse ++ [shift]) := by simp
  rw [reversed, List.append_assoc] at out
  have turn : table.Path 1
      (topEnd carry) ⟨List.replicate used consumed ++ digit x :: ((row top).reverse ++ [shift]),
        endMark :: below⟩
      (topPick carry) (Span.leftOf (List.replicate used consumed ++
        digit x :: ((row top).reverse ++ [shift])) (endMark :: below)) := .left rfl (by decide)
  have seek : table.Path used
      (topPick carry) (Span.leftOf (List.replicate used consumed ++
        digit x :: ((row top).reverse ++ [shift])) (endMark :: below))
      (topPick carry) ⟨(row top).reverse ++ [shift],
        digit x :: (List.replicate used consumed ++ endMark :: below)⟩ :=
    .runLeft rfl used (by decide)
  have take : table.Path 1
      (topPick carry) ⟨(row top).reverse ++ [shift],
        digit x :: (List.replicate used consumed ++ endMark :: below)⟩
      (topLeave carry x) ⟨consumed :: ((row top).reverse ++ [shift]),
        List.replicate used consumed ++ endMark :: below⟩ := by
    cases x <;> exact .putRight rfl (by decide)
  have leave : table.Path used
      (topLeave carry x) ⟨consumed :: ((row top).reverse ++ [shift]),
        List.replicate used consumed ++ endMark :: below⟩
      (topLeave carry x) ⟨List.replicate used consumed ++
        consumed :: ((row top).reverse ++ [shift]), endMark :: below⟩ :=
    .runRight rfl used (by decide)
  have pass : table.Path 1
      (topLeave carry x) ⟨List.replicate used consumed ++
        consumed :: ((row top).reverse ++ [shift]), endMark :: below⟩
      (bottomEnd carry x) ⟨endMark :: (List.replicate used consumed ++
        consumed :: ((row top).reverse ++ [shift])), below⟩ := .right rfl (by decide)
  convert (out.trans turn).trans ((seek.trans take).trans (leave.trans pass)) using 1
  · simp
    omega
  · simp [List.replicate_succ']

theorem column_meet (within : bottom ⊆ passed) (carry x : Bool) : table.Path (bottom.length + 1)
    (bottomEnd carry x) ⟨behind, bottom ++ (parked done ++ endMark :: rest)⟩
    (bottomPick carry x) (Span.leftOf (bottom.reverse ++ behind)
      (parked done ++ endMark :: rest)) := by
  have out : table.Path bottom.length
      (bottomEnd carry x) ⟨behind, bottom ++ (parked done ++ endMark :: rest)⟩
      (bottomEnd carry x) ⟨bottom.reverse ++ behind, parked done ++ endMark :: rest⟩ :=
    .scanRight passed (by cases carry <;> cases x <;> decide) within
  exact out.trans (done_turn (by cases carry <;> cases x <;> decide) done)

theorem column_add (within : bottom ⊆ passed) (carry x y : Bool) : table.Path (bottom.length + 3)
    (bottomEnd carry x) ⟨behind, (bottom ++ [digit y]) ++ (parked done ++ endMark :: rest)⟩
    (columnReturn (Column.carryOut x y carry)) (Span.leftOf (bottom.reverse ++ behind)
      (parked (Column.sum x y carry :: done) ++ endMark :: rest)) := by
  have digit_within : bottom ++ [digit y] ⊆ passed := by
    have member : digit y ∈ passed := digit_mem (by simp) (by simp) y
    simp [within, member]
  have meet := @column_meet done _ behind rest digit_within carry x
  have lowest : Span.leftOf ((bottom ++ [digit y]).reverse ++ behind)
      (parked done ++ endMark :: rest) =
    ⟨bottom.reverse ++ behind, digit y :: (parked done ++ endMark :: rest)⟩ := by simp [Span.leftOf]
  rw [lowest] at meet
  have add : table.Path 1
      (bottomPick carry x) ⟨bottom.reverse ++ behind,
        digit y :: (parked done ++ endMark :: rest)⟩
      (columnReturn (Column.carryOut x y carry)) (Span.leftOf (bottom.reverse ++ behind)
        (parked (Column.sum x y carry :: done) ++ endMark :: rest)) := by
    cases carry <;> cases x <;> cases y <;> exact .putLeft rfl (by decide)
  convert meet.trans add using 1
  simp

theorem column_return (within : bottom ⊆ passed) (carry : Bool) :
    table.Path (top.length + used + bottom.length + 2)
      (columnReturn carry) (Span.leftOf (bottom.reverse ++ endMark ::
        (List.replicate used consumed ++ ((row top).reverse ++ [shift])))
        (parked done ++ endMark :: rest))
      (topEnd carry) (atColumn top used bottom done rest) := by
  have crossed : bottom.reverse ++ endMark :: (List.replicate used consumed ++
      (row top).reverse) ⊆ endMark :: passed := by
    simp [List.subset_cons_of_subset _ within]
  have back : table.Sweeps (columnReturn carry) .left id (endMark :: passed) := by
    cases carry <;> decide
  have turn : table (columnReturn carry) shift = .go [] .right (topEnd carry) := rfl
  convert Path.scanBack _ back turn crossed (by decide) using 1
  · simp
    omega
  · simp
    rfl
  · simp [atColumn]

theorem column_path (within : bottom ⊆ passed) (carry x y : Bool) :
    table.Path (2 * top.length + 4 * used + 2 * bottom.length + 10)
      (topEnd carry) (atColumn (top ++ [x]) used (bottom ++ [digit y]) done rest)
      (topEnd (Column.carryOut x y carry))
      (atColumn top (used + 1) bottom (Column.sum x y carry :: done) rest) := by
  have take := @column_take top used
    ((bottom ++ [digit y]) ++ (parked done ++ endMark :: rest)) carry x
  have add := @column_add done bottom (endMark :: (List.replicate (used + 1) consumed ++
    ((row top).reverse ++ [shift]))) rest within carry x y
  convert (take.trans add).trans (column_return within _) using 1
  · omega
  · simp [atColumn]

/-- A column that has no bottom digit: where one belongs is something else, and the control says so. -/
theorem column_refuses {s : Symbol} {more : List Symbol} {fault : Fault} (within : bottom ⊆ passed)
    (lowest : bottom.reverse ++ [endMark] = s :: more) (carry x : Bool)
    (refused : table (bottomPick carry x) s = .refuse fault) :
    table.Refuses (top.length + 3 * used + bottom.length + 5)
      (topEnd carry) (atColumn (top ++ [x]) used bottom done rest) fault := by
  have take := @column_take top used (bottom ++ (parked done ++ endMark :: rest)) carry x
  have meet := @column_meet done bottom (endMark :: (List.replicate (used + 1) consumed ++
    ((row top).reverse ++ [shift]))) rest within carry x
  rw [List.append_cons bottom.reverse, lowest] at meet
  convert (take.trans meet).refuses ⟨.nil, refused⟩ using 1
  · omega
  · simp [atColumn]

/-- The columns of the last top digits, where the bottom term has digits enough. What is done, the
carry, and the digits that are left of the bottom term add up to the same number as before. -/
theorem columns_path (within : front ⊆ passed) (high_top top bottom : List Bool) (carry : Bool)
    (fits : top.length ≤ bottom.length) :
    ∃ high low, ∃ last : Bool, bottom.length = high.length + top.length ∧
      low.length = done.length + top.length ∧
      Numeral.carriedValue last high low = Numeral.value done + 2 ^ done.length *
        (carry.toNat + Numeral.value top + Numeral.value bottom) ∧
      table.Path (top.length * (2 * (high_top.length + top.length) + 4 * used +
          2 * (front.length + bottom.length) + 6))
        (topEnd carry) (atColumn (high_top ++ top) used (front ++ row bottom) done rest)
        (topEnd last) (atColumn high_top (used + top.length) (front ++ row high) low rest) := by
  -- From the low end: the column that is added first is the last digit of either term.
  induction top using List.reverseRecOn generalizing used bottom done carry with
  | nil =>
    exact ⟨bottom, done, carry, rfl, rfl, by simp [Numeral.carriedValue], by simpa using Path.nil⟩
  | append_singleton top x ih =>
    rcases List.eq_nil_or_concat' bottom with rfl | ⟨bottom, y, rfl⟩
    · simp at fits
    · simp only [List.length_append, List.length_singleton] at fits ⊢
      have digits_within : front ++ row bottom ⊆ passed := by simp [within]
      have first := @column_path (high_top ++ top) done used _ rest digits_within carry x y
      obtain ⟨high, low, last, width, count, value, others⟩ :=
        @ih (Column.sum x y carry :: done) (used + 1) bottom (Column.carryOut x y carry) (by omega)
      rw [List.length_cons] at count value
      refine ⟨high, low, last, by omega, by omega, ?_, ?_⟩
      · have digits := Column.sum_add_two_mul_carryOut x y carry
        rw [value, Numeral.value_cons, pow_succ, Numeral.value_concat, Numeral.value_concat]
        calc
          _ = Numeral.value done + 2 ^ done.length * ((Column.sum x y carry).toNat +
                2 * (Column.carryOut x y carry).toNat +
                2 * Numeral.value top + 2 * Numeral.value bottom) := by ring
          _ = _ := by
            rw [digits]
            ring
      · convert first.trans others using 1
        · simp only [List.length_append, length_row]
          ring
        · simp
        · rw [Nat.add_assoc, Nat.add_comm 1]

end Columns

section Settle

theorem settle_enter (carry : Bool) : table.Path (3 * used + 3)
    (topEnd carry) (atColumn [] used bottom done rest)
    (settleBottom carry) ⟨endMark :: (List.replicate used consumed ++ [shift]),
      bottom ++ (parked done ++ endMark :: rest)⟩ := by
  have out : table.Path used (topEnd carry) (atColumn [] used bottom done rest)
      (topEnd carry) ⟨List.replicate used consumed ++ [shift],
        endMark :: (bottom ++ (parked done ++ endMark :: rest))⟩ :=
    .runRight (by cases carry <;> rfl) used (by decide)
  have turn : table.Path 1
      (topEnd carry) ⟨List.replicate used consumed ++ [shift],
        endMark :: (bottom ++ (parked done ++ endMark :: rest))⟩
      (topPick carry) (Span.leftOf (List.replicate used consumed ++ [shift])
        (endMark :: (bottom ++ (parked done ++ endMark :: rest)))) := .left rfl (by decide)
  have back : table.Path used
      (topPick carry) (Span.leftOf (List.replicate used consumed ++ [shift])
        (endMark :: (bottom ++ (parked done ++ endMark :: rest))))
      (topPick carry) (Span.leftOf [shift] (List.replicate used consumed ++
        endMark :: (bottom ++ (parked done ++ endMark :: rest)))) :=
    .runLeft (by cases carry <;> rfl) used (by decide)
  have settle : table.Path 1
      (topPick carry) (Span.leftOf [shift] (List.replicate used consumed ++
        endMark :: (bottom ++ (parked done ++ endMark :: rest))))
      (settleTop carry) ⟨[shift], List.replicate used consumed ++
        endMark :: (bottom ++ (parked done ++ endMark :: rest))⟩ := .right rfl (by decide)
  have again : table.Path used
      (settleTop carry) ⟨[shift], List.replicate used consumed ++
        endMark :: (bottom ++ (parked done ++ endMark :: rest))⟩
      (settleTop carry) ⟨List.replicate used consumed ++ [shift],
        endMark :: (bottom ++ (parked done ++ endMark :: rest))⟩ :=
    .runRight (by cases carry <;> rfl) used (by decide)
  have pass : table.Path 1
      (settleTop carry) ⟨List.replicate used consumed ++ [shift],
        endMark :: (bottom ++ (parked done ++ endMark :: rest))⟩
      (settleBottom carry) ⟨endMark :: (List.replicate used consumed ++ [shift]),
        bottom ++ (parked done ++ endMark :: rest)⟩ := .right rfl (by decide)
  convert ((out.trans turn).trans (back.trans settle)).trans (again.trans pass) using 1
  omega

theorem settle_restore (done : List Bool) : table.Path (done.length + 1)
    settleRestore ⟨behind, parked done ++ endMark :: rest⟩
    dropReturn (Span.leftOf ((row done).reverse ++ behind) (endMark :: rest)) := by
  have restore : table.Path (parked done).length
      settleRestore ⟨behind, parked done ++ endMark :: rest⟩
      settleRestore ⟨((parked done).map .restored).reverse ++ behind, endMark :: rest⟩ :=
    .sweepRight .restored [standInZero, standInOne] (by decide) (by simp)
  rw [map_restored_parked] at restore
  have turn : table.Path 1 settleRestore ⟨(row done).reverse ++ behind, endMark :: rest⟩
      dropReturn (Span.leftOf ((row done).reverse ++ behind) (endMark :: rest)) :=
    .left rfl (by decide)
  convert restore.trans turn using 1
  simp

theorem settle_false (within : bottom ⊆ passed) : table.Path (bottom.length + done.length + 1)
    (settleBottom false) ⟨behind, bottom ++ (parked done ++ endMark :: rest)⟩
    dropReturn (Span.leftOf ((bottom ++ row done).reverse ++ behind) (endMark :: rest)) := by
  have out : table.Path bottom.length
      (settleBottom false) ⟨behind, bottom ++ (parked done ++ endMark :: rest)⟩
      (settleBottom false) ⟨bottom.reverse ++ behind, parked done ++ endMark :: rest⟩ :=
    .scanRight passed (by decide) within
  cases done with
  | nil =>
    have turn : table.Path 1 (settleBottom false) ⟨bottom.reverse ++ behind, endMark :: rest⟩
        dropReturn (Span.leftOf (bottom.reverse ++ behind) (endMark :: rest)) :=
      .left rfl (by decide)
    simpa using out.trans turn
  | cons b done =>
    have first : table.Path 1
        (settleBottom false) ⟨bottom.reverse ++ behind, parked (b :: done) ++ endMark :: rest⟩
        settleRestore ⟨digit b :: (bottom.reverse ++ behind), parked done ++ endMark :: rest⟩ := by
      cases b <;> exact .putRight rfl (by decide)
    convert out.trans (first.trans (settle_restore done)) using 1
    · simp
      omega
    · simp

/-- The carry goes through the ones at the low end and lands on what stands in front of them, be it
a digit or not. -/
theorem settle_carry {s : Symbol} (lands : s ∈ endMark :: passed) (stops : s ≠ one) (ones : Nat) :
    table.Path (3 * ones + done.length + 3)
      (settleBottom true) ⟨s :: behind,
        row (List.replicate ones true) ++ (parked done ++ endMark :: rest)⟩
      dropReturn (Span.leftOf ((row (true :: (List.replicate ones false ++ done))).reverse ++ behind)
        (endMark :: rest)) := by
  rw [row_replicate_true]
  have out : table.Path ones
      (settleBottom true) ⟨s :: behind, List.replicate ones one ++ (parked done ++ endMark :: rest)⟩
      (settleBottom true) ⟨List.replicate ones one ++ s :: behind, parked done ++ endMark :: rest⟩ :=
    .runRight rfl ones (by decide)
  have turn : table.Path 1
      (settleBottom true) ⟨List.replicate ones one ++ s :: behind, parked done ++ endMark :: rest⟩
      settleCarry (Span.leftOf (List.replicate ones one ++ s :: behind)
        (parked done ++ endMark :: rest)) := done_turn (by decide) done
  have through : table.Path (List.replicate ones one).length
      settleCarry (Span.leftOf (List.replicate ones one ++ s :: behind)
        (parked done ++ endMark :: rest))
      settleCarry (Span.leftOf (s :: behind)
        (((List.replicate ones one).map fun _ => standInZero).reverse ++
          (parked done ++ endMark :: rest))) :=
    .sweepLeft (fun _ => standInZero) [one] (by decide) (by simp)
  have zeros : ((List.replicate ones one).map fun _ => standInZero).reverse ++
      (parked done ++ endMark :: rest) =
      parked (List.replicate ones false ++ done) ++ endMark :: rest := by
    simp [parked, Symbol.standIn]
  rw [zeros] at through
  have land : table.Path 1
      settleCarry (Span.leftOf (s :: behind)
        (parked (List.replicate ones false ++ done) ++ endMark :: rest))
      settleRestore ⟨one :: behind,
        parked (List.replicate ones false ++ done) ++ endMark :: rest⟩ := by
    simp only [List.mem_cons, mem_passed, stops, false_or] at lands
    rcases lands with rfl | rfl | rfl | rfl | rfl <;> exact .putTwice rfl (by decide) (by decide)
  have restore := @settle_restore (one :: behind) rest (List.replicate ones false ++ done)
  convert ((out.trans turn).trans (through.trans land)).trans restore using 1
  · simp
    omega
  · simp [Symbol.digit]

theorem settle_true {s : Symbol} (within : front ⊆ passed) (lands : s ∈ passed) (stops : s ≠ one)
    (ones : Nat) : table.Path (front.length + 3 * ones + done.length + 4)
      (settleBottom true) ⟨behind,
        front ++ [s] ++ row (List.replicate ones true) ++ (parked done ++ endMark :: rest)⟩
      dropReturn (Span.leftOf ((front ++ row (true :: (List.replicate ones false ++ done))).reverse ++
        behind) (endMark :: rest)) := by
  have out : table.Path (front ++ [s]).length
      (settleBottom true) ⟨behind, (front ++ [s]) ++
        (row (List.replicate ones true) ++ (parked done ++ endMark :: rest))⟩
      (settleBottom true) ⟨(front ++ [s]).reverse ++ behind,
        row (List.replicate ones true) ++ (parked done ++ endMark :: rest)⟩ :=
    .scanRight passed (by decide) (by simp [within, lands])
  rw [List.reverse_concat, List.cons_append] at out
  have carried := @settle_carry done (front.reverse ++ behind) rest s
    (List.mem_cons_of_mem _ lands) stops ones
  convert out.trans carried using 1
  · simp
    omega
  · simp
  · simp

end Settle

section Drop

theorem drop_path {kept : List Symbol} (within : kept ⊆ endMark :: passed) :
    table.Path (kept.length + 2 * used + 1)
      dropReturn (Span.leftOf (kept.reverse ++ (List.replicate used consumed ++ [shift]))
        (endMark :: rest))
      dropErase ⟨[], kept ++ endMark :: rest⟩ := by
  have solid : (kept ++ endMark :: rest).head? ≠ some blank :=
    head?_ne_blank within (by decide) (by simp)
  have solid_used : (List.replicate used consumed ++ (kept ++ endMark :: rest)).head? ≠
      some blank :=
    head?_ne_blank (show _ ⊆ [consumed] by simp) (by decide) solid
  have crossed : kept.reverse ++ List.replicate used consumed ⊆ endMark :: passed := by
    simp [within]
  have home : table.Path (kept.reverse ++ List.replicate used consumed).length
      dropReturn (Span.leftOf ((kept.reverse ++ List.replicate used consumed) ++ [shift])
        (endMark :: rest))
      dropReturn (Span.leftOf [shift]
        ((kept.reverse ++ List.replicate used consumed).reverse ++ endMark :: rest)) :=
    .scanLeft (endMark :: passed) (by decide) crossed
  rw [List.append_assoc, List.reverse_append, List.reverse_replicate, List.reverse_reverse,
    List.append_assoc] at home
  have start : table.Path 1
      dropReturn ⟨[], shift :: (List.replicate used consumed ++ (kept ++ endMark :: rest))⟩
      dropErase ⟨[], List.replicate used consumed ++ (kept ++ endMark :: rest)⟩ :=
    .erase rfl solid_used (by decide)
  have erase : table.Path (List.replicate used consumed).length
      dropErase ⟨[], List.replicate used consumed ++ (kept ++ endMark :: rest)⟩
      dropErase ⟨[], kept ++ endMark :: rest⟩ :=
    .eraseRow [consumed] (by decide) (by simp) solid
  convert home.trans (start.trans erase) using 1
  simp
  omega

theorem drop_ends {sum : List Symbol} (within : sum ⊆ passed) :
    table.Ends (sum.length + 2 * used + 4)
      dropReturn (Span.leftOf (sum.reverse ++ endMark :: (List.replicate used consumed ++ [shift]))
        (endMark :: rest))
      .addition ⟨[], shift :: (sum ++ endMark :: rest)⟩ := by
  have kept : endMark :: sum ⊆ endMark :: passed := List.cons_subset_cons _ within
  have drop := @drop_path used rest _ kept
  have solid : (sum ++ endMark :: rest).head? ≠ some blank :=
    head?_ne_blank within (by decide) (by simp)
  have mark : table.Path 1 dropErase ⟨[], endMark :: (sum ++ endMark :: rest)⟩
      dropBack ⟨[], sum ++ endMark :: rest⟩ := .erase rfl solid (by decide)
  have back : table.Path 1 dropBack ⟨[], sum ++ endMark :: rest⟩
      dropMark ⟨[], blank :: (sum ++ endMark :: rest)⟩ := bottom_turn (by decide) within
  have write : table.Ends 0 dropMark ⟨[], blank :: (sum ++ endMark :: rest)⟩
      .addition ⟨[], shift :: (sum ++ endMark :: rest)⟩ := ⟨.nil, rfl, .alone (.put (by decide))⟩
  convert drop.ends ((mark.trans back).ends write) using 1
  · simp
    omega
  · simp

/-- After a carry out of the last column its one has taken the place of the end mark. -/
theorem drop_carried_ends (low : List Bool) : table.Ends (low.length + 2 * used + 3)
    dropReturn (Span.leftOf ((row (true :: low)).reverse ++
      (List.replicate used consumed ++ [shift])) (endMark :: rest))
    .addition (atShift (true :: low) rest) := by
  have within : row (true :: low) ⊆ endMark :: passed := by simp [-row_cons]
  have drop := @drop_path used rest _ within
  have back : table.Path 1 dropErase ⟨[], row (true :: low) ++ endMark :: rest⟩
      dropMark ⟨[], blank :: (row (true :: low) ++ endMark :: rest)⟩ := .left rfl (by decide)
  have write : table.Ends 0 dropMark ⟨[], blank :: (row (true :: low) ++ endMark :: rest)⟩
      .addition (atShift (true :: low) rest) := ⟨.nil, rfl, .alone (.put (by decide))⟩
  convert drop.ends (back.ends write) using 1
  simp
  omega

end Drop

section Pass

/-- With every column done, the carry is settled and the top term dropped. A sum that fits is as long
as the digits of the bottom term were, and what stood in front of them still does. -/
theorem settle_ends (within : front ⊆ passed) (carry : Bool) (high low : List Bool)
    (room : Numeral.carriedValue carry high low < 2 ^ (high.length + low.length)) :
    ∃ count ≤ 2 * front.length + 4 * high.length + 2 * low.length + 5 * used + 10, ∃ sum,
      table.Ends count (topEnd carry) (atColumn [] used (front ++ row high) low rest)
        .addition ⟨[], shift :: (front ++ row sum ++ endMark :: rest)⟩ ∧
      Numeral.value sum = Numeral.carriedValue carry high low ∧
      sum.length = high.length + low.length := by
  have enter := @settle_enter low used (front ++ row high) rest carry
  cases carry with
  | false =>
    have settle := @settle_false low _ (endMark :: (List.replicate used consumed ++ [shift])) rest
      (show front ++ row high ⊆ passed by simp [within])
    rw [List.append_assoc, List.append_assoc, ← row_append, ← List.append_assoc] at settle
    have drop := @drop_ends used rest (front ++ row (high ++ low)) (by simp [within])
    refine ⟨_, ?_, high ++ low, enter.ends (settle.ends drop), ?_, by simp⟩
    · simp
      omega
    · rw [Numeral.value_append, Numeral.carriedValue]
      simp
      ring
  | true =>
    -- The carry stops at the last zero of the bottom term.
    rcases Numeral.split_ones high with ⟨before, ones, rfl⟩ | all
    · have settle := @settle_true low (front ++ row before)
        (endMark :: (List.replicate used consumed ++ [shift])) rest zero (by simp [within]) (by simp)
        (by decide) ones
      have digits : front ++ row before ++ [zero] ++ row (List.replicate ones true) =
        front ++ row (before ++ false :: List.replicate ones true) := by simp [Symbol.digit]
      rw [digits, List.append_assoc front (row before), ← row_append] at settle
      have drop := @drop_ends used rest
        (front ++ row (before ++ true :: (List.replicate ones false ++ low)))
        (by simp [within, -row_cons])
      refine ⟨_, ?_, before ++ true :: (List.replicate ones false ++ low),
        enter.ends (settle.ends drop), ?_, by simp; omega⟩
      · simp
        omega
      · rw [← List.cons_append, ← List.append_assoc, Numeral.value_append, Numeral.value_carried,
          Numeral.carriedValue]
        simp
        ring
    · have ones := Numeral.value_replicate_true high.length
      rw [← all] at ones
      rw [Numeral.carriedValue, Bool.toNat_true, Nat.add_comm 1, ones, pow_add,
        Nat.mul_comm (2 ^ high.length)] at room
      omega

/-- A carry with ones in front of it only goes on to what stands in front of them, and its one takes
that place: the sum is one digit longer than the digits were. -/
theorem settle_overwrites {s : Symbol} (within : front ⊆ passed) (lands : s ∈ passed)
    (stops : s ≠ one) {carry : Bool} {high low : List Bool}
    (full : 2 ^ (high.length + low.length) ≤ Numeral.carriedValue carry high low) :
    ∃ count ≤ 2 * (front.length + 1) + 4 * high.length + 2 * low.length + 5 * used + 10,
      table.Ends count (topEnd carry) (atColumn [] used (front ++ [s] ++ row high) low rest)
        .addition ⟨[], shift :: (front ++
          row (true :: (List.replicate high.length false ++ low)) ++ endMark :: rest)⟩ := by
  obtain ⟨rfl, all⟩ := Numeral.ones_of_overflow full
  have enter := @settle_enter low used (front ++ [s] ++ row high) rest true
  have settle := @settle_true low front (endMark :: (List.replicate used consumed ++ [shift])) rest s
    within lands stops high.length
  rw [← all] at settle
  have drop := @drop_ends used rest
    (front ++ row (true :: (List.replicate high.length false ++ low))) (by simp [within, -row_cons])
  refine ⟨_, ?_, enter.ends (settle.ends drop)⟩
  simp
  omega

theorem settle_overflows {carry : Bool} {high low : List Bool}
    (full : 2 ^ (high.length + low.length) ≤ Numeral.carriedValue carry high low) :
    ∃ count ≤ 4 * high.length + 2 * low.length + 5 * used + 10,
      table.Ends count (topEnd carry) (atColumn [] used (row high) low rest)
        .addition (atShift (true :: (List.replicate high.length false ++ low)) rest) := by
  obtain ⟨rfl, all⟩ := Numeral.ones_of_overflow full
  have enter := @settle_enter low used (row high) rest true
  have settle := @settle_carry low (List.replicate used consumed ++ [shift]) rest endMark
    (by simp) (by decide) high.length
  rw [← all] at settle
  refine ⟨_, ?_, enter.ends (settle.ends (drop_carried_ends _))⟩
  simp
  omega

def additionCost (top bottom : Nat) : Nat :=
  2 * top * (top + bottom) + 11 * top + 4 * bottom + 15

-- What the columns cost, and what they leave of it for the rest of the pass.
theorem additionCost_eq (top bottom : Nat) : additionCost top bottom =
    2 * top + 5 + top * (2 * top + 2 * bottom + 6) + (3 * top + 4 * bottom + 10) := by
  rw [additionCost]
  ring

theorem addition_columns {top bottom : List Bool} (within : front ⊆ passed)
    (fits : top.length ≤ bottom.length) : ∃ high low, ∃ carry : Bool,
      bottom.length = high.length + low.length ∧ low.length = top.length ∧
      Numeral.carriedValue carry high low = Numeral.value top + Numeral.value bottom ∧
      table.Path (2 * top.length + 5 +
          top.length * (2 * top.length + 2 * (front.length + bottom.length) + 6))
        additionStart (atShift top (front ++ row bottom ++ endMark :: rest))
        (topEnd carry) (atColumn [] top.length (front ++ row high) low rest) := by
  have enter := @addition_enter top (front ++ row bottom) rest (by simp [within])
  obtain ⟨high, low, carry, width, done, value, columns⟩ :=
    @columns_path [] 0 front rest within [] top bottom false fits
  rw [List.length_nil, Nat.zero_add] at done
  refine ⟨high, low, carry, by omega, done, by simpa using value, ?_⟩
  simpa using enter.trans columns

theorem addition_within {top bottom : List Bool} (within : front ⊆ passed)
    (fits : top.length ≤ bottom.length)
    (room : Numeral.value top + Numeral.value bottom < 2 ^ bottom.length) :
    ∃ count ≤ additionCost top.length (front.length + bottom.length), ∃ sum,
      table.Ends count additionStart (atShift top (front ++ row bottom ++ endMark :: rest))
        .addition ⟨[], shift :: (front ++ row sum ++ endMark :: rest)⟩ ∧
      Numeral.value sum = Numeral.value top + Numeral.value bottom ∧
      sum.length = bottom.length := by
  obtain ⟨high, low, carry, width, done, total, columns⟩ := @addition_columns front rest _ _ within fits
  rw [← total, width] at room
  obtain ⟨count, bound, sum, ends, value, length⟩ :=
    @settle_ends top.length front rest within carry high low room
  refine ⟨_, ?_, sum, columns.ends ends, value.trans total, length.trans width.symm⟩
  rw [additionCost_eq]
  omega

theorem addition_overwrites {s : Symbol} {top bottom : List Bool} (within : front ⊆ passed)
    (lands : s ∈ passed) (stops : s ≠ one) (fits : top.length ≤ bottom.length)
    (full : 2 ^ bottom.length ≤ Numeral.value top + Numeral.value bottom) :
    ∃ count ≤ additionCost top.length (front.length + 1 + bottom.length), ∃ sum,
      table.Ends count additionStart (atShift top (front ++ [s] ++ row bottom ++ endMark :: rest))
        .addition ⟨[], shift :: (front ++ row sum ++ endMark :: rest)⟩ ∧
      Numeral.value sum = Numeral.value top + Numeral.value bottom ∧
      sum.length = bottom.length + 1 := by
  obtain ⟨high, low, carry, width, done, total, columns⟩ :=
    @addition_columns (front ++ [s]) rest top bottom (by simp [within, lands]) fits
  rw [← total, width] at full
  obtain ⟨count, bound, ends⟩ :=
    @settle_overwrites top.length front rest s within lands stops _ _ _ full
  refine ⟨_, ?_, _, columns.ends ends, (Numeral.value_overflow full).trans total, ?_⟩
  · rw [additionCost_eq, List.length_append, List.length_singleton]
    omega
  · simp [width]

/-- A top term that is longer than the digits at the end of the bottom term meets what stands in
front of them. -/
theorem addition_refuses {s : Symbol} {more : List Symbol} {fault : Fault} {top bottom : List Bool}
    (within : front ⊆ passed) (lowest : front.reverse ++ [endMark] = s :: more)
    (refused : ∀ carry x, table (bottomPick carry x) s = .refuse fault)
    (short : bottom.length < top.length) :
    ∃ count ≤ additionCost top.length (front.length + bottom.length),
      table.Refuses count additionStart (atShift top (front ++ row bottom ++ endMark :: rest))
        fault := by
  obtain ⟨high_top, x, low_top, same, length⟩ := Numeral.exists_low short
  have enter := @addition_enter top (front ++ row bottom) rest (by simp [within])
  obtain ⟨high, low, carry, width, -, -, columns⟩ :=
    @columns_path [] 0 front rest within (high_top ++ [x]) low_top bottom false (by omega)
  obtain rfl : high = [] := List.length_eq_zero_iff.mp (by omega)
  have refuses := @column_refuses high_top low (0 + low_top.length) front rest s more fault within
    lowest carry x (refused carry x)
  rw [row_nil, List.append_nil] at columns
  rw [same] at enter ⊢
  refine ⟨_, ?_, enter.refuses (columns.refuses refuses)⟩
  have fewer : low_top.length ≤ (high_top ++ [x] ++ low_top).length := by
    simp
    omega
  have columns_le := Nat.mul_le_mul_right
    (2 * (high_top ++ [x] ++ low_top).length + 2 * (front.length + bottom.length) + 6) fewer
  rw [additionCost_eq]
  simp only [List.length_append, List.length_singleton, Nat.mul_zero, Nat.add_zero] at columns_le ⊢
  omega

/-- A pass replaces the two terms by their sum. -/
theorem addition_ends {top bottom : List Bool} {rest : List Symbol}
    (fits : top.length ≤ bottom.length) :
    ∃ count ≤ additionCost top.length bottom.length, ∃ sum,
      table.Ends count additionStart (atShift top (row bottom ++ endMark :: rest))
        .addition (atShift sum rest) ∧
      Numeral.value sum = Numeral.value top + Numeral.value bottom ∧
      sum.length = bottom.length +
        if 2 ^ bottom.length ≤ Numeral.value top + Numeral.value bottom then 1 else 0 := by
  by_cases room : Numeral.value top + Numeral.value bottom < 2 ^ bottom.length
  · obtain ⟨count, bound, sum, ends, value, length⟩ :=
      @addition_within [] rest _ _ (by simp) fits room
    rw [List.length_nil, Nat.zero_add] at bound
    exact ⟨count, bound, sum, ends, value, by rw [if_neg (by omega), length]; rfl⟩
  · obtain ⟨high, low, carry, width, done, total, columns⟩ :=
      @addition_columns [] rest top bottom (by simp) fits
    have full := Nat.le_of_not_lt room
    rw [← total, width] at full
    obtain ⟨count, bound, ends⟩ := @settle_overflows top.length rest _ _ _ full
    refine ⟨_, ?_, _, columns.ends ends, (Numeral.value_overflow full).trans total, ?_⟩
    · rw [additionCost_eq, List.length_nil, Nat.zero_add]
      omega
    · rw [if_pos (Nat.le_of_not_lt room), width]
      simp

theorem addition_last : table.Ends (top.length + 2)
    additionStart (atShift top []) .cleanup (atProduct top) := by
  have out : table.Path (shift :: row top).length
      additionStart ⟨[], (shift :: row top) ++ [endMark]⟩
      additionStart ⟨(shift :: row top).reverse ++ [], [endMark]⟩ :=
    .scanRight [zero, one, shift] (by decide) (by simp)
  rw [List.append_nil] at out
  have look : table.Path 1 additionStart ⟨(shift :: row top).reverse, [endMark]⟩
      additionCheck ⟨endMark :: (shift :: row top).reverse, []⟩ := .right rfl (by decide)
  have there : (⟨endMark :: (shift :: row top).reverse, []⟩ : Span) = atProduct top := by
    simp [atProduct]
  rw [there] at look
  have ends : table.Ends ((shift :: row top).length + 1) additionStart (atShift top [])
      .cleanup (atProduct top) := (out.trans look).finish rfl
  simpa using ends

end Pass

end TuringMultiplier.Procedure
