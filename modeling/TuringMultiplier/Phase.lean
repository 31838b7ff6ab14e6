/-! The stages of a multiplication. -/

set_option autoImplicit false

namespace TuringMultiplier

/-- A stage, named for what it does next. Each one leaves the head where the next one starts. -/
inductive Phase where
  /-- A first factor that is just `0` makes the product `0`. -/
  | zeroCheck
  /-- Marks the right end of the second factor. -/
  | endMark
  /-- Walks back to the delimiter. -/
  | digitScan
  /-- Consumes the lowest digit left in the first factor. A `1` appends a term: the second factor,
  then one shift for every digit consumed before. -/
  | dispatch
  /-- Turns every shift into a trailing zero. -/
  | placeValue
  /-- Erases the factors. -/
  | inputRemoval
  /-- Adds the leftmost term into the one behind it. -/
  | addition
  /-- Takes away the marks and the leading zeros. -/
  | cleanup
  | done
  deriving DecidableEq, Repr, Inhabited

namespace Phase

def name : Phase → String
  | zeroCheck => "ZeroCheck"
  | endMark => "EndMark"
  | digitScan => "DigitScan"
  | dispatch => "Dispatch"
  | placeValue => "PlaceValue"
  | inputRemoval => "InputRemoval"
  | addition => "Addition"
  | cleanup => "Cleanup"
  | done => "Done"

theorem name_inj {p q : Phase} : p.name = q.name ↔ p = q := by
  cases p <;> cases q <;> decide

end Phase

end TuringMultiplier
