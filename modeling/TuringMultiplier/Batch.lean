import TuringMultiplier.Machine
import TuringMultiplier.Random.Factors

/-! Many random multiplications, each checked against the product of its factors. A batch draws all
its pairs from one seed and runs a fresh machine on each. -/

set_option autoImplicit false

namespace TuringMultiplier

structure Mismatch where
  first : Nat
  second : Nat
  /-- The numeral of the product. -/
  expected : String
  /-- What is on the tape instead, or the fault that stopped the machine. -/
  outcome : Except Fault String
  deriving Repr

structure Round where
  steps : Nat
  mismatch : Option Mismatch
  deriving Repr

namespace Round

def input (first second : Nat) (separator : Char) : String :=
  Numeral.text first ++ String.singleton separator ++ Numeral.text second

def judge (first second steps : Nat) (outcome : Except Fault String) : Round :=
  let expected := Numeral.text (first * second)
  let mismatch := some { first, second, expected, outcome }
  match outcome with
  | .ok content => ⟨steps, if content = expected then none else mismatch⟩
  | .error _ => ⟨steps, mismatch⟩

/-- Multiplies on a fresh machine. A machine that cannot be built makes a mismatch without moves;
`none` means that `patience` was too little for a machine without a limit. -/
def run (patience first second : Nat) (config : Machine.Config) : Option Round :=
  match Machine.ofInput (input first second config.separator) config with
  | .error fault => some (judge first second 0 (.error fault))
  | .ok machine =>
    match machine.calculate patience with
    | (.done (), machine) => some (judge first second machine.steps (.ok machine.content))
    | (.failed fault, machine) => some (judge first second machine.steps (.error fault))
    | (.unfinished, _) => none

end Round

namespace Batch

structure Config where
  rounds : Nat := 1000
  /-- The widest factor in bits. Values outside 1 to 64 count as the nearest one inside. -/
  maxBits : Nat := 12
  stepLimit : Option Nat := some Machine.defaultStepLimit
  separator : Char := Machine.defaultSeparator
  deriving DecidableEq, Repr

def Config.machine (config : Config) : Machine.Config where
  separator := config.separator
  mode := .run
  stepLimit := config.stepLimit

structure Report where
  rounds : Nat
  totalSteps : Nat
  mismatches : List Mismatch
  deriving Repr

namespace Report

def ofRounds (rounds : List Round) : Report where
  rounds := rounds.length
  totalSteps := (rounds.map Round.steps).foldl (· + ·) 0
  mismatches := rounds.filterMap Round.mismatch

def isClean (report : Report) : Bool := report.mismatches.isEmpty

end Report

inductive Event where
  | mismatch (found : Mismatch)
  | finished (rounds totalSteps mismatches : Nat)
  deriving Repr

def events (rounds : List Round) : List Event :=
  let report := Report.ofRounds rounds
  rounds.filterMap (fun round => round.mismatch.map .mismatch)
    ++ [.finished report.rounds report.totalSteps report.mismatches.length]

/-- The report of a batch and its events. A reserved separator refuses the batch before any pair is
drawn. -/
def run (patience : Nat) (config : Config) (seed : UInt64) : Outcome Report × List Event :=
  if Symbol.isReserved config.separator then (.failed (.reservedDelimiter config.separator), [])
  else
    let rounds := do
      let pairs ← Random.pairs patience config.rounds config.maxBits seed
      pairs.mapM fun (first, second) => Round.run patience first second config.machine
    match rounds with
    | some rounds => (.done (.ofRounds rounds), events rounds)
    | none => (.unfinished, [])

end Batch

end TuringMultiplier
