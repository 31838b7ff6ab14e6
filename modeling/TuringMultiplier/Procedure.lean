import TuringMultiplier.Column
import TuringMultiplier.Control

/-! The multiplication procedure as a transition table. The states of each phase form a block of
their own; a block ends by naming the phase that comes next.

Dispatch consumes the first factor from its low end. For every `1` it appends a term to the right
end of the tape: a copy of the second factor, then one shift for each digit consumed before.
Addition then folds the terms into one. Of two terms the left one is called the top term and the
right one the bottom term; they are added lowest digit first. -/

set_option autoImplicit false

namespace TuringMultiplier.Procedure

/-- The states of the control. A Boolean field is a digit or a carry that the control remembers. -/
inductive State where
  -- On the first cell of the first factor.
  | zeroFirst
  -- On the cell behind a leading `0`.
  | zeroSecond
  -- Back on the leading `0` of a longer factor.
  | zeroBack
  -- Erasing the whole input, whose product is zero.
  | zeroErase
  -- Going right to the delimiter.
  | endDelimiter
  -- Going right to the end of the second factor.
  | endBlank
  -- Going left to the delimiter.
  | digitDelimiter
  -- On the delimiter, before the next digit of the first factor.
  | dispatchStart
  -- Going left to the lowest digit that is left.
  | dispatchDigit
  -- Going right to the delimiter; the digit was a `0`.
  | dispatchZero
  -- Going right to the delimiter; the digit was a `1`.
  | copyEnter
  -- Going right to the next digit of the second factor that is to be copied.
  | copyPick
  -- Carrying a digit to the right end of the tape.
  | copyAppend (bit : Bool)
  -- Going left to the delimiter after a digit was appended.
  | copyReturn
  -- Going left over the second factor and putting its digits back.
  | copyRestore
  -- Going left over the consumed digits and counting them off.
  | shiftTally
  -- Going right to the end of the tape, to write one shift.
  | shiftAppend
  -- Going left to the delimiter after a shift was written.
  | shiftReturn
  -- Going right over the counted digits and marking them as consumed again.
  | shiftClear
  -- Going right to the end of the finished term.
  | termEnd
  -- Going left to the delimiter after a term was closed.
  | termReturn
  -- Going right to the end of the second factor.
  | placeStart
  -- Going right over the terms and turning shifts into zeros.
  | placeFill
  -- On the blank behind the last term.
  | removalStart
  -- Going left to the blank in front of the first factor.
  | removalSeek
  -- Erasing rightward, up to the end of the second factor.
  | removalErase
  -- On what follows the factors: a term, or nothing.
  | removalCheck
  -- On the blank in front of the first term.
  | removalMark
  -- Going right to the end of the top term.
  | additionStart
  -- On what follows the top term: another term, or nothing.
  | additionCheck
  -- Going left to the start mark; there is a term to add to.
  | additionReturn
  -- Going right to the end of the top term.
  | topEnd (carry : Bool)
  -- Going left to the lowest digit left in the top term.
  | topPick (carry : Bool)
  -- Carrying a top digit right, to the end of the top term.
  | topLeave (carry top : Bool)
  -- Going right to the first column that is already done, or the end of the bottom term.
  | bottomEnd (carry top : Bool)
  -- On the bottom digit of the column.
  | bottomPick (carry top : Bool)
  -- Going left to the start mark after a column.
  | columnReturn (carry : Bool)
  -- Going right to the end of the top term; all its digits are used up.
  | settleTop (carry : Bool)
  -- Going right to the columns that are done.
  | settleBottom (carry : Bool)
  -- Carrying a one leftward through the bottom term.
  | settleCarry
  -- Going right over the sum and putting its digits back.
  | settleRestore
  -- Going left to the start mark after the digits are back.
  | dropReturn
  -- Erasing the start mark and the used top term.
  | dropErase
  -- Right of the erased top term's end.
  | dropBack
  -- In front of the sum.
  | dropMark
  -- On the blank behind the last term.
  | cleanupStart
  -- On the end mark of the last term.
  | cleanupEnd
  -- Going left to the start mark.
  | cleanupSeek
  -- On the first digit that may be a leading zero.
  | leadingZero
  -- On the cell behind a `0`.
  | leadingCheck
  -- Back on a `0` that more digits follow.
  | leadingErase
  -- Back on a `0` that is all there is.
  | leadingKeep
  -- Nothing is left to do.
  | halted
  deriving DecidableEq, Repr

def entry : Phase → State
  | .zeroCheck => .zeroFirst
  | .endMark => .endDelimiter
  | .digitScan => .digitDelimiter
  | .dispatch => .dispatchStart
  | .placeValue => .placeStart
  | .inputRemoval => .removalStart
  | .addition => .additionStart
  | .cleanup => .cleanupStart
  | .done => .halted

open State TuringMultiplier.Action

/-- The transition table. A search goes on in its own state until it meets what it looks for. -/
def table : Control State Phase
  | zeroFirst, .zero => go [] .right zeroSecond
  | zeroFirst, _ => finish [] .endMark
  | zeroSecond, .delimiter => go [] .left zeroErase
  | zeroSecond, _ => go [] .left zeroBack
  | zeroBack, _ => finish [] .endMark
  | zeroErase, .blank => finish [.zero] .done
  | zeroErase, _ => go [.blank] .right zeroErase

  | endDelimiter, .delimiter => go [] .right endBlank
  | endDelimiter, _ => go [] .right endDelimiter
  | endBlank, .blank => finish [.endMark] .digitScan
  | endBlank, _ => go [] .right endBlank

  | digitDelimiter, .delimiter => finish [] .dispatch
  | digitDelimiter, _ => go [] .left digitDelimiter

  | dispatchStart, _ => go [] .left dispatchDigit
  | dispatchDigit, .blank => finish [] .placeValue
  | dispatchDigit, .zero => go [.consumed] .right dispatchZero
  | dispatchDigit, .one => go [] .right copyEnter
  | dispatchDigit, _ => go [] .left dispatchDigit
  | dispatchZero, .delimiter => finish [] .dispatch
  | dispatchZero, _ => go [] .right dispatchZero

  | copyEnter, .delimiter => go [] .right copyPick
  | copyEnter, _ => go [] .right copyEnter
  | copyPick, .endMark => go [] .left copyRestore
  | copyPick, s =>
    match s.bit with
    | some bit => go [.standIn bit] .right (copyAppend bit)
    | none => go [] .right copyPick
  | copyAppend bit, .blank => go [.digit bit] .left copyReturn
  | copyAppend bit, _ => go [] .right (copyAppend bit)
  | copyReturn, .delimiter => go [] .right copyPick
  | copyReturn, _ => go [] .left copyReturn
  | copyRestore, .standInZero => go [.zero] .left copyRestore
  | copyRestore, .standInOne => go [.one] .left copyRestore
  | copyRestore, _ => go [] .left shiftTally

  | shiftTally, .tenner => go [] .left shiftTally
  | shiftTally, .consumed => go [.tenner] .right shiftAppend
  | shiftTally, _ => go [.consumed] .right shiftClear
  | shiftAppend, .blank => go [.shift] .left shiftReturn
  | shiftAppend, _ => go [] .right shiftAppend
  | shiftReturn, .delimiter => go [] .left shiftTally
  | shiftReturn, _ => go [] .left shiftReturn
  | shiftClear, .tenner => go [.consumed] .right shiftClear
  | shiftClear, .blank => go [.endMark] .left termReturn
  | shiftClear, _ => go [] .right termEnd

  | termEnd, .blank => go [.endMark] .left termReturn
  | termEnd, _ => go [] .right termEnd
  | termReturn, .delimiter => finish [] .dispatch
  | termReturn, _ => go [] .left termReturn

  | placeStart, .endMark => go [] .right placeFill
  | placeStart, _ => go [] .right placeStart
  | placeFill, .shift => go [.zero] .right placeFill
  | placeFill, .blank => finish [] .inputRemoval
  | placeFill, _ => go [] .right placeFill

  | removalStart, _ => go [] .left removalSeek
  | removalSeek, .blank => go [] .right removalErase
  | removalSeek, _ => go [] .left removalSeek
  | removalErase, .endMark => go [.blank] .right removalCheck
  | removalErase, _ => go [.blank] .right removalErase
  | removalCheck, .blank => finish [.zero] .done
  | removalCheck, _ => go [] .left removalMark
  | removalMark, _ => finish [.shift] .addition

  | additionStart, .endMark => go [] .right additionCheck
  | additionStart, _ => go [] .right additionStart
  | additionCheck, .blank => finish [] .cleanup
  | additionCheck, .shift => go [] .right (topEnd false)
  | additionCheck, _ => go [] .left additionReturn
  | additionReturn, .shift => go [] .right (topEnd false)
  | additionReturn, _ => go [] .left additionReturn

  | topEnd carry, .endMark => go [] .left (topPick carry)
  | topEnd carry, _ => go [] .right (topEnd carry)
  | topPick carry, .shift => go [] .right (settleTop carry)
  | topPick carry, s =>
    match s.bit with
    | some top => go [.consumed] .right (topLeave carry top)
    | none => go [] .left (topPick carry)
  | topLeave carry top, .endMark => go [] .right (bottomEnd carry top)
  | topLeave carry top, _ => go [] .right (topLeave carry top)
  | bottomEnd carry top, .standInZero => go [] .left (bottomPick carry top)
  | bottomEnd carry top, .standInOne => go [] .left (bottomPick carry top)
  | bottomEnd carry top, .endMark => go [] .left (bottomPick carry top)
  | bottomEnd carry top, _ => go [] .right (bottomEnd carry top)
  | bottomPick _ _, .endMark => refuse .bottomTermExhausted
  | bottomPick carry top, s =>
    match s.bit, Column.add (.digit top) s carry with
    | none, _ => refuse (.unexpectedSymbol s)
    | some _, some (sum, carry) => go [sum] .left (columnReturn carry)
    -- Two digits can always be added, so nothing leads here.
    | some _, none => refuse (.unexpectedSymbol (.digit top))
  | columnReturn carry, .shift => go [] .right (topEnd carry)
  | columnReturn carry, _ => go [] .left (columnReturn carry)

  | settleTop carry, .endMark => go [] .right (settleBottom carry)
  | settleTop carry, _ => go [] .right (settleTop carry)
  | settleBottom true, .standInZero => go [] .left settleCarry
  | settleBottom true, .standInOne => go [] .left settleCarry
  | settleBottom true, .endMark => go [] .left settleCarry
  | settleBottom false, .standInZero => go [.zero] .right settleRestore
  | settleBottom false, .standInOne => go [.one] .right settleRestore
  | settleBottom false, .endMark => go [] .left dropReturn
  | settleBottom carry, _ => go [] .right (settleBottom carry)
  | settleCarry, .one => go [.standInZero] .left settleCarry
  -- The carry lands here, on whatever it meets, and its digit is put back at once.
  | settleCarry, _ => go [.standInOne, .one] .right settleRestore
  | settleRestore, .endMark => go [] .left dropReturn
  | settleRestore, s => go [s.restored] .right settleRestore

  | dropReturn, .shift => go [.blank] .right dropErase
  | dropReturn, _ => go [] .left dropReturn
  | dropErase, .shift => go [.blank] .right dropErase
  | dropErase, .consumed => go [.blank] .right dropErase
  | dropErase, .endMark => go [.blank] .right dropBack
  | dropErase, _ => go [] .left dropMark
  | dropBack, _ => go [] .left dropMark
  | dropMark, _ => finish [.shift] .addition

  | cleanupStart, _ => go [] .left cleanupEnd
  | cleanupEnd, _ => go [.blank] .left cleanupSeek
  | cleanupSeek, .shift => go [.blank] .right leadingZero
  | cleanupSeek, _ => go [] .left cleanupSeek
  | leadingZero, .zero => go [] .right leadingCheck
  | leadingZero, _ => finish [] .done
  | leadingCheck, .blank => go [] .left leadingKeep
  | leadingCheck, _ => go [] .left leadingErase
  | leadingErase, _ => go [.blank] .right leadingZero
  | leadingKeep, _ => finish [] .done

  | halted, _ => finish [] .done

end TuringMultiplier.Procedure
