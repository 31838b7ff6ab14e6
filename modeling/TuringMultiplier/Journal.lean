import TuringMultiplier.Phase
import TuringMultiplier.Tape

/-! What a run writes down about itself. The journal is only ever added to and never read by the
machine, so the mode cannot change a result. -/

set_option autoImplicit false

namespace TuringMultiplier

inductive Mode where
  | run
  | step
  deriving DecidableEq, Repr, Inhabited

inductive Event where
  /-- The tape as printed after the move, the number of the move, and where the head is now. -/
  | moved (tape : String) (steps : Nat) (position : Int)
  /-- The moves so far and the length of the tape when `before` handed over to `after`. -/
  | phaseChanged (before after : Phase) (steps length : Nat)
  deriving DecidableEq, Repr

/-- The events so far, oldest first. -/
structure Journal where
  mode : Mode
  entries : Array Event := #[]
  deriving DecidableEq, Repr

namespace Journal

def noteMove (journal : Journal) (tape : Tape) (steps : Nat) (position : Int) : Journal :=
  match journal.mode with
  | .step =>
    let event := .moved (tape.render position) steps position
    { journal with entries := journal.entries.push event }
  | .run => journal

/-- A phase that follows itself is not a change and is not noted. -/
def notePhase (journal : Journal) (before after : Phase) (steps length : Nat) : Journal :=
  if before = after then journal
  else { journal with entries := journal.entries.push (.phaseChanged before after steps length) }

end Journal

end TuringMultiplier
