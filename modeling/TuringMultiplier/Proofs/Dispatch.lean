import TuringMultiplier.Proofs.Layout

/-! Consuming the first factor. A digit that is `1` appends a term: the second factor is copied one
digit at a time, and then one shift is written for each digit consumed before. -/

set_option autoImplicit false

namespace TuringMultiplier.Procedure

open Layout State Control
open TuringMultiplier.Symbol
  (zero one delimiter blank consumed endMark tenner shift standInZero standInOne digit standIn)

abbrev marks : List Symbol := [zero, one, shift, endMark]

section Copy

variable {behind rest : List Symbol}

theorem copyAppend_sweeps (b : Bool) : table.Sweeps (copyAppend b) .right id marks := by
  cases b <;> decide

/-- One round of the copy: the digit is parked, its copy is the new last cell, and the head is back
on the first cell behind the delimiter. -/
theorem copy_digit (done : List Bool) (b : Bool) (within : rest ⊆ marks) :
    table.Path (2 * rest.length + 2 * done.length + 4)
      copyPick ⟨delimiter :: behind, parked done ++ digit b :: rest⟩
      copyPick ⟨delimiter :: behind, parked (done ++ [b]) ++ (rest ++ [digit b])⟩ := by
  have pick : table.Path (parked done).length
      copyPick ⟨delimiter :: behind, parked done ++ digit b :: rest⟩
      copyPick ⟨(parked done).reverse ++ delimiter :: behind, digit b :: rest⟩ :=
    .scanRight [standInZero, standInOne] (by decide) (by simp)
  have park : table.Path 1
      copyPick ⟨(parked done).reverse ++ delimiter :: behind, digit b :: rest⟩
      (copyAppend b) ⟨standIn b :: ((parked done).reverse ++ delimiter :: behind), rest⟩ := by
    cases b <;> exact .putRight rfl (by decide)
  have round : table.Path (2 * rest.length + (standIn b :: (parked done).reverse).length + 1)
      (copyAppend b) ⟨standIn b :: (parked done).reverse ++ delimiter :: behind, rest⟩
      copyReturn ⟨behind, delimiter :: ((standIn b :: (parked done).reverse).reverse ++ rest
        ++ [digit b])⟩ := by
    refine .roundTripOver marks (standInZero :: standInOne :: marks) (copyAppend_sweeps b) rfl
      (by cases b <;> decide) (by decide) within ?_
    have kept : rest ⊆ standInZero :: standInOne :: marks := List.Subset.trans within (by simp)
    cases b <;> simp [kept, Symbol.standIn]
  have enter : table.Path 1
      copyReturn ⟨behind, delimiter :: ((standIn b :: (parked done).reverse).reverse ++ rest
        ++ [digit b])⟩
      copyPick ⟨delimiter :: behind, (standIn b :: (parked done).reverse).reverse ++ rest
        ++ [digit b]⟩ := .right rfl (by decide)
  convert (pick.trans park).trans (round.trans enter) using 1
  · simp
    omega
  · simp

theorem copy_digits {tail : List Symbol} (within : tail ⊆ marks) (done todo : List Bool) :
    table.Path (todo.length * (3 * todo.length + 4 * done.length + 2 * tail.length + 1))
      copyPick ⟨delimiter :: behind, parked done ++ (row todo ++ (tail ++ row done))⟩
      copyPick ⟨delimiter :: behind, parked (done ++ todo) ++ (tail ++ row (done ++ todo))⟩ := by
  -- The copies of the digits that are done follow the tail, so every round leaves the same shape.
  induction todo generalizing done with
  | nil => simpa using Path.nil
  | cons b todo ih =>
    have first : table.Path (2 * (row todo ++ (tail ++ row done)).length + 2 * done.length + 4)
        copyPick ⟨delimiter :: behind, parked done ++ (row (b :: todo) ++ (tail ++ row done))⟩
        copyPick ⟨delimiter :: behind,
          parked (done ++ [b]) ++ (row todo ++ (tail ++ row (done ++ [b])))⟩ := by
      have rest : row todo ++ (tail ++ row done) ⊆ marks := by simp [within]
      have round := @copy_digit behind _ done b rest
      simpa using round
    convert first.trans (ih (done ++ [b])) using 1
    · simp
      ring
    · simp

theorem copy_restore {tail : List Symbol} (second : List Bool) :
    table.Path (2 * second.length + 2)
      copyPick ⟨delimiter :: behind, parked second ++ endMark :: tail⟩
      shiftTally (Span.leftOf behind (delimiter :: (row second ++ endMark :: tail))) := by
  have out : table.Path (parked second).length
      copyPick ⟨delimiter :: behind, parked second ++ endMark :: tail⟩
      copyPick ⟨(parked second).reverse ++ delimiter :: behind, endMark :: tail⟩ :=
    .scanRight [standInZero, standInOne] (by decide) (by simp)
  have turn : table.Path 1
      copyPick ⟨(parked second).reverse ++ delimiter :: behind, endMark :: tail⟩
      copyRestore (Span.leftOf ((parked second).reverse ++ delimiter :: behind) (endMark :: tail)) :=
    .left rfl (by decide)
  have restore : table.Path (parked second).reverse.length
      copyRestore (Span.leftOf ((parked second).reverse ++ delimiter :: behind) (endMark :: tail))
      copyRestore ⟨behind, delimiter ::
        (((parked second).reverse.map .restored).reverse ++ endMark :: tail)⟩ :=
    .sweepLeft .restored [standInZero, standInOne] (by decide)
      (by simp)
  rw [List.map_reverse, map_restored_parked, List.reverse_reverse] at restore
  have leave : table.Path 1
      copyRestore ⟨behind, delimiter :: (row second ++ endMark :: tail)⟩
      shiftTally (Span.leftOf behind (delimiter :: (row second ++ endMark :: tail))) :=
    .left rfl (by decide)
  convert (out.trans turn).trans (restore.trans leave) using 1
  simp
  omega

end Copy

section Shifts

variable {base right : List Symbol}

/-- One round of the count: the next consumed digit is counted off and a shift is the new last
cell. The digits counted so far stand between it and the delimiter. -/
theorem shift_digit (counted : Nat) (within : right ⊆ marks) :
    table.Path (2 * counted + 2 * right.length + 4)
      shiftTally (Span.leftOf (List.replicate counted tenner ++ consumed :: base)
        (delimiter :: right))
      shiftTally (Span.leftOf (List.replicate counted tenner ++ tenner :: base)
        (delimiter :: (right ++ [shift]))) := by
  have tally : table.Path counted
      shiftTally (Span.leftOf (List.replicate counted tenner ++ consumed :: base)
        (delimiter :: right))
      shiftTally ⟨base, consumed :: (List.replicate counted tenner ++ delimiter :: right)⟩ :=
    .runLeft rfl counted (by decide)
  have flip : table.Path 1
      shiftTally ⟨base, consumed :: (List.replicate counted tenner ++ delimiter :: right)⟩
      shiftAppend ⟨tenner :: base, List.replicate counted tenner ++ delimiter :: right⟩ :=
    .putRight rfl (by decide)
  have across : table.Path counted
      shiftAppend ⟨tenner :: base, List.replicate counted tenner ++ delimiter :: right⟩
      shiftAppend ⟨List.replicate counted tenner ++ tenner :: base, delimiter :: right⟩ :=
    .runRight rfl counted (by decide)
  have pass : table.Path 1
      shiftAppend ⟨List.replicate counted tenner ++ tenner :: base, delimiter :: right⟩
      shiftAppend ⟨delimiter :: (List.replicate counted tenner ++ tenner :: base), right⟩ :=
    .right rfl (by decide)
  have round : table.Path (2 * right.length + 1)
      shiftAppend ⟨delimiter :: (List.replicate counted tenner ++ tenner :: base), right⟩
      shiftReturn ⟨List.replicate counted tenner ++ tenner :: base,
        delimiter :: (right ++ [shift])⟩ :=
    .roundTrip marks (by decide) rfl (by decide) (by decide) within
  have leave : table.Path 1
      shiftReturn ⟨List.replicate counted tenner ++ tenner :: base,
        delimiter :: (right ++ [shift])⟩
      shiftTally (Span.leftOf (List.replicate counted tenner ++ tenner :: base)
        (delimiter :: (right ++ [shift]))) := .left rfl (by decide)
  convert ((tally.trans flip).trans (across.trans pass)).trans (round.trans leave) using 1
  omega

theorem shift_digits (counted used : Nat) (within : right ⊆ marks) :
    table.Path (used * (2 * counted + 2 * right.length + 2 * used + 2))
      shiftTally (Span.leftOf (List.replicate counted tenner ++
        (List.replicate used consumed ++ base)) (delimiter :: right))
      shiftTally (Span.leftOf (List.replicate (counted + used) tenner ++ base)
        (delimiter :: (right ++ List.replicate used shift))) := by
  -- One digit moves over from those to be counted, and the tape grows by one shift.
  induction used generalizing counted right with
  | zero => simpa using Path.nil
  | succ used ih =>
    have first : table.Path (2 * counted + 2 * right.length + 4)
        shiftTally (Span.leftOf (List.replicate counted tenner ++
          (List.replicate (used + 1) consumed ++ base)) (delimiter :: right))
        shiftTally (Span.leftOf (List.replicate (counted + 1) tenner ++
          (List.replicate used consumed ++ base)) (delimiter :: (right ++ [shift]))) := by
      rw [show List.replicate (counted + 1) Symbol.tenner = List.replicate counted tenner ++ [tenner]
        from List.replicate_succ']
      simpa [List.replicate_succ] using shift_digit counted within
    convert first.trans (ih (counted + 1) (by simp [within])) using 1
    · simp
      ring
    · rw [List.append_assoc, List.singleton_append, ← List.replicate_succ]
      simp [Nat.add_right_comm, Nat.add_assoc]

theorem shift_close (counted : Nat) (within : right ⊆ marks) :
    table.Ends (2 * counted + 2 * right.length + 3)
      shiftTally (Span.leftOf (List.replicate counted tenner ++ one :: base) (delimiter :: right))
      .dispatch ⟨List.replicate counted consumed ++ consumed :: base,
        delimiter :: (right ++ [endMark])⟩ := by
  have tally : table.Path counted
      shiftTally (Span.leftOf (List.replicate counted tenner ++ one :: base) (delimiter :: right))
      shiftTally ⟨base, one :: (List.replicate counted tenner ++ delimiter :: right)⟩ :=
    .runLeft rfl counted (by decide)
  have consume : table.Path 1
      shiftTally ⟨base, one :: (List.replicate counted tenner ++ delimiter :: right)⟩
      shiftClear ⟨consumed :: base, List.replicate counted tenner ++ delimiter :: right⟩ :=
    .putRight rfl (by decide)
  have clear : table.Path (List.replicate counted Symbol.tenner).length
      shiftClear ⟨consumed :: base, List.replicate counted tenner ++ delimiter :: right⟩
      shiftClear ⟨((List.replicate counted Symbol.tenner).map fun _ => consumed).reverse
        ++ consumed :: base, delimiter :: right⟩ :=
    .sweepRight (fun _ => consumed) [tenner] (by decide)
      (by simp)
  rw [List.map_replicate, List.reverse_replicate] at clear
  have pass : table.Path 1
      shiftClear ⟨List.replicate counted consumed ++ consumed :: base, delimiter :: right⟩
      termEnd ⟨delimiter :: (List.replicate counted consumed ++ consumed :: base), right⟩ :=
    .right rfl (by decide)
  have round : table.Path (2 * right.length + 1)
      termEnd ⟨delimiter :: (List.replicate counted consumed ++ consumed :: base), right⟩
      termReturn ⟨List.replicate counted consumed ++ consumed :: base,
        delimiter :: (right ++ [endMark])⟩ :=
    .roundTrip marks (by decide) rfl (by decide) (by decide) within
  convert (((tally.trans consume).trans (clear.trans pass)).trans round).finish rfl using 1
  simp
  omega

end Shifts

section Digits

def work (second : List Bool) (places : List Nat) : List Symbol :=
  row second ++ endMark :: terms second places

/-- On the delimiter, between two digits: the last `used` digits of the first factor are consumed
and have left one term for each of the places. -/
def atDelimiter (kept : List Bool) (used : Nat) (second : List Bool) (places : List Nat) : Span :=
  ⟨List.replicate used consumed ++ (row kept).reverse, delimiter :: work second places⟩

variable {kept second : List Bool} {used : Nat} {places : List Nat}

theorem work_subset : work second places ⊆ marks := by simp [work]

theorem length_work : (work second places).length =
    second.length + 1 + (terms second places).length := by
  simp [work]
  omega

theorem dispatch_seek (b : Bool) :
    table.Path (1 + used) dispatchStart (atDelimiter (kept ++ [b]) used second places)
      dispatchDigit ⟨(row kept).reverse, digit b ::
        (List.replicate used consumed ++ delimiter :: work second places)⟩ := by
  have leave : table.Path 1 dispatchStart (atDelimiter (kept ++ [b]) used second places)
      dispatchDigit (Span.leftOf (List.replicate used consumed ++ digit b :: (row kept).reverse)
        (delimiter :: work second places)) := by
    have reversed : (row (kept ++ [b])).reverse = digit b :: (row kept).reverse := by simp
    rw [atDelimiter, reversed]
    exact .left rfl (by decide)
  have seek : table.Path used
      dispatchDigit (Span.leftOf (List.replicate used consumed ++ digit b :: (row kept).reverse)
        (delimiter :: work second places))
      dispatchDigit ⟨(row kept).reverse, digit b ::
        (List.replicate used consumed ++ delimiter :: work second places)⟩ :=
    .runLeft rfl used (by decide)
  exact leave.trans seek

theorem dispatch_zero : table.Ends (2 * used + 2)
    dispatchStart (atDelimiter (kept ++ [false]) used second places)
    .dispatch (atDelimiter kept (used + 1) second places) := by
  have consume : table.Path 1
      dispatchDigit ⟨(row kept).reverse, digit false ::
        (List.replicate used consumed ++ delimiter :: work second places)⟩
      dispatchZero ⟨consumed :: (row kept).reverse,
        List.replicate used consumed ++ delimiter :: work second places⟩ := .putRight rfl (by decide)
  have back : table.Path used
      dispatchZero ⟨consumed :: (row kept).reverse,
        List.replicate used consumed ++ delimiter :: work second places⟩
      dispatchZero ⟨List.replicate used consumed ++ consumed :: (row kept).reverse,
        delimiter :: work second places⟩ := .runRight rfl used (by decide)
  convert ((dispatch_seek false).trans (consume.trans back)).finish rfl using 1
  · omega
  · simp [atDelimiter, List.replicate_succ']

/-- The moves that a digit `1` costs, with `used` digits consumed, `width` digits to copy and
`right` cells right of the delimiter. -/
def dispatchCost (used width right : Nat) : Nat :=
  2 * (width + used + 1) * right + 2 * (used + 1) * width + width * (width + 3)
    + 2 * used * (used + 4) + 8

theorem dispatch_one : table.Ends (dispatchCost used second.length (work second places).length)
    dispatchStart (atDelimiter (kept ++ [true]) used second places)
    .dispatch (atDelimiter kept (used + 1) second (places ++ [used])) := by
  have turn : table.Path 1
      dispatchDigit ⟨(row kept).reverse, digit true ::
        (List.replicate used consumed ++ delimiter :: work second places)⟩
      copyEnter ⟨one :: (row kept).reverse,
        List.replicate used consumed ++ delimiter :: work second places⟩ := .right rfl (by decide)
  have back : table.Path used
      copyEnter ⟨one :: (row kept).reverse,
        List.replicate used consumed ++ delimiter :: work second places⟩
      copyEnter ⟨List.replicate used consumed ++ one :: (row kept).reverse,
        delimiter :: work second places⟩ := .runRight rfl used (by decide)
  have enter : table.Path 1
      copyEnter ⟨List.replicate used consumed ++ one :: (row kept).reverse,
        delimiter :: work second places⟩
      copyPick ⟨delimiter :: (List.replicate used consumed ++ one :: (row kept).reverse),
        work second places⟩ := .right rfl (by decide)
  have copy : table.Path
        (second.length * (3 * second.length + 2 * ((terms second places).length + 1) + 1))
      copyPick ⟨delimiter :: (List.replicate used consumed ++ one :: (row kept).reverse),
        work second places⟩
      copyPick ⟨delimiter :: (List.replicate used consumed ++ one :: (row kept).reverse),
        parked second ++ endMark :: (terms second places ++ row second)⟩ := by
    have within : endMark :: terms second places ⊆ marks := by simp
    simpa [work] using copy_digits within [] second
  have restore : table.Path (2 * second.length + 2)
      copyPick ⟨delimiter :: (List.replicate used consumed ++ one :: (row kept).reverse),
        parked second ++ endMark :: (terms second places ++ row second)⟩
      shiftTally (Span.leftOf (List.replicate used consumed ++ one :: (row kept).reverse)
        (delimiter :: (work second places ++ row second))) := by
    simpa [work] using copy_restore second
  have shifts : table.Path (used * (2 * (work second places ++ row second).length + 2 * used + 2))
      shiftTally (Span.leftOf (List.replicate used consumed ++ one :: (row kept).reverse)
        (delimiter :: (work second places ++ row second)))
      shiftTally (Span.leftOf (List.replicate used tenner ++ one :: (row kept).reverse)
        (delimiter :: (work second places ++ row second ++ List.replicate used shift))) := by
    have within : work second places ++ row second ⊆ marks := by simp [work_subset]
    simpa using shift_digits 0 used within
  have close := @shift_close (row kept).reverse _ used
    (show work second places ++ row second ++ List.replicate used shift ⊆ marks
      by simp [work_subset])
  convert ((dispatch_seek true).trans (turn.trans back)).ends
    ((enter.trans (copy.trans restore)).ends (shifts.ends close)) using 1
  · simp [dispatchCost, length_work]
    ring
  · simp [atDelimiter, List.replicate_succ', work, terms_concat]

def atLeftEnd (used : Nat) (second : List Bool) (places : List Nat) : Span :=
  ⟨[], blank :: (factors used second ++ endMark :: terms second places)⟩

theorem dispatch_nil : table.Ends (used + 1) dispatchStart (atDelimiter [] used second places)
    .placeValue (atLeftEnd used second places) := by
  have leave : table.Path 1 dispatchStart (atDelimiter [] used second places)
      dispatchDigit (Span.leftOf (List.replicate used consumed ++ [])
        (delimiter :: work second places)) := .left rfl (by decide)
  have seek : table.Path used
      dispatchDigit (Span.leftOf (List.replicate used consumed ++ [])
        (delimiter :: work second places))
      dispatchDigit (Span.leftOf []
        (List.replicate used consumed ++ delimiter :: work second places)) :=
    .runLeft rfl used (by decide)
  have there : Span.leftOf [] (List.replicate used consumed ++ delimiter :: work second places) =
      atLeftEnd used second places := by
    simp [Span.leftOf, atLeftEnd, factors, work]
  rw [there] at seek
  rw [Nat.add_comm]
  exact (leave.trans seek).finish rfl

end Digits

end TuringMultiplier.Procedure
