import TuringMultiplier.Accepted
import TuringMultiplier.Procedure

/-! The multiplier: a head and the phase it is in. One advance runs the control from the entry of
the phase to its end; a calculation advances until the machine is done. A machine that fails keeps
its phase and its head where the fault met them, so it can be driven on from there. -/

set_option autoImplicit false

namespace TuringMultiplier

structure Machine where
  head : Head
  phase : Phase
  deriving DecidableEq, Repr

namespace Machine

def defaultSeparator : Char := 'x'

def defaultStepLimit : Nat := Nat.pow 2 32

structure Config where
  separator : Char := defaultSeparator
  mode : Mode := .run
  stepLimit : Option Nat := some defaultStepLimit
  deriving DecidableEq, Repr

/-- A fresh machine on an input that the check lets through. A reserved separator is refused before
the input is looked at. -/
def ofChecked (check : String → Char → Bool) (input : String) (config : Config) :
    Except Fault Machine := do
  if Symbol.isReserved config.separator then
    throw (.reservedDelimiter config.separator)
  unless check input config.separator do
    throw (.rejected input config.separator)
  return ⟨← Head.ofText input config.separator config.stepLimit config.mode, .zeroCheck⟩

def ofInput (input : String) (config : Config) : Except Fault Machine :=
  ofChecked isInput input config

/-- A machine in any phase on any tape. The head is first taken to `position`, right of the first
cell or left of it, by moves that count but are not noted. -/
def onTape (text : String) (config : Config) (position : Int) (phase : Phase) :
    Except Fault Machine := do
  let head ← Head.ofText text config.separator config.stepLimit .run
  let head ← head.travel (if position < 0 then .left else .right) position.natAbs
  return ⟨{ head with journal := { mode := config.mode } }, phase⟩

/-- Does one unit of work and answers the phase that comes next: one digit of the first factor in
`dispatch`, one pair of terms in `addition`, all of any other phase. A finished machine stays as it
is. -/
def advance (patience : Nat) : Machine → Outcome Phase × Machine
  | ⟨head, phase⟩ =>
    match Procedure.table.drive (head.turns patience) (Procedure.entry phase) head with
    | (.done next, ⟨tape, position, symbol, steps, stepLimit, journal⟩) =>
      let journal := journal.notePhase phase next steps tape.length
      (.done next, ⟨⟨tape, position, symbol, steps, stepLimit, journal⟩, next⟩)
    | (.failed fault, head) => (.failed fault, ⟨head, phase⟩)
    | (.unfinished, head) => (.unfinished, ⟨head, phase⟩)

def advanceUntilDone (patience : Nat) : Nat → Machine → Outcome Unit × Machine
  | 0, m => (.unfinished, m)
  | count + 1, m =>
    if m.phase = .done then (.done (), m)
    else
      match m.advance patience with
      | (.done _, m) => advanceUntilDone patience count m
      | (.failed fault, m) => (.failed fault, m)
      | (.unfinished, m) => (.unfinished, m)

/-- More advances than fit into the moves that are left: of two advances in a row at least one
moves the head. -/
def advances (m : Machine) (patience : Nat) : Nat := 2 * m.head.turns patience + 2

def calculate (m : Machine) (patience : Nat) : Outcome Unit × Machine :=
  m.advanceUntilDone patience (m.advances patience)

/-- The answers of up to `count` advances and the machine after each, up to the first that is done
or has failed. A machine that is already done has no history. -/
def historyUpTo (patience : Nat) : Nat → Machine → List (Outcome Phase × Machine)
  | 0, _ => []
  | count + 1, m =>
    if m.phase = .done then []
    else
      match m.advance patience with
      | (.done next, m) => (.done next, m) :: historyUpTo patience count m
      | stopped => [stopped]

def history (m : Machine) (patience : Nat) : List (Outcome Phase × Machine) :=
  m.historyUpTo patience (m.advances patience)

def content (m : Machine) : String := m.head.tape.content

def steps (m : Machine) : Nat := m.head.steps

def render (m : Machine) : String := m.head.render

end Machine

end TuringMultiplier
