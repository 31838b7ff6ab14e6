import TuringMultiplier.Symbol
import TuringMultiplier.Text.Quoted

/-! What can keep a multiplication from its result, and the wording of each cause. -/

set_option autoImplicit false

namespace TuringMultiplier

/-- The first two causes keep a machine from being built; the others stop a machine that runs. -/
inductive Fault where
  | rejected (input : String) (delimiter : Char)
  | reservedDelimiter (delimiter : Char)
  /-- Digits of the top term are left, but the bottom term has none. -/
  | bottomTermExhausted
  /-- Something that is not a digit stands where a digit of the bottom term is due. -/
  | unexpectedSymbol (found : Symbol)
  | stepLimitExceeded (limit : Nat)
  deriving DecidableEq, Repr

namespace Fault

def message : Fault → String
  | rejected input delimiter =>
    "input " ++ Text.quoted input ++ " is not of the form <binary>" ++ String.singleton delimiter
      ++ "<binary>"
  | reservedDelimiter delimiter =>
    "delimiter " ++ Text.quotedChar delimiter ++ " is part of the tape alphabet"
  | bottomTermExhausted => "addition reached the term separator while top-term digits remain"
  | unexpectedSymbol found =>
    "addition found " ++ found.name ++ " where a bottom-term digit belongs"
  | stepLimitExceeded limit => "step limit of " ++ toString limit ++ " moves exceeded"

end Fault

inductive Outcome (α : Type) where
  | done (value : α)
  | failed (fault : Fault)
  /-- The turns ran out first. This says nothing about what more turns would lead to. -/
  | unfinished
  deriving DecidableEq, Repr

end TuringMultiplier
