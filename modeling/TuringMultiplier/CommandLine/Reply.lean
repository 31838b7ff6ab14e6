import TuringMultiplier.CommandLine.Arguments
import TuringMultiplier.CommandLine.Log

/-! What a run prints and how it exits. A reply is a value; printing it is left to the program. -/

set_option autoImplicit false

namespace TuringMultiplier.CommandLine

structure Reply where
  status : Nat
  stdout : String
  stderr : String
  /-- The batch whose speed is to be added once its time is known. -/
  timed : Option Batch.Report := none
  deriving Repr

namespace Reply

def lines (text : List String) : String := String.join (text.map (· ++ "\n"))

def failure (errors : List String) : Reply where
  status := 1
  stdout := ""
  stderr := lines errors

def batchStatus (report : Batch.Report) : Nat := if report.isClean then 0 else 1

def mismatchLine (m : Mismatch) : String :=
  Numeral.text m.first ++ " x " ++ Numeral.text m.second ++ ": " ++
    match m.outcome with
    | .ok content => "expected " ++ m.expected ++ ", got " ++ content
    | .error fault => fault.message

/-- A table of one row; the mismatches go to the error stream, behind what was logged of them. -/
def ofCheck (logged : List String) (report : Batch.Report) : Reply where
  status := batchStatus report
  stdout := lines ["rounds,total_steps,mismatches",
    toString report.rounds ++ "," ++ toString report.totalSteps ++ ","
      ++ toString report.mismatches.length]
  stderr := lines (logged ++ report.mismatches.map mismatchLine)

def ofBenchmark (config : Batch.Config) (logged : List String) (report : Batch.Report) : Reply where
  status := batchStatus report
  stdout := ""
  stderr := lines <| logged ++ ["Benchmark results:",
    "  Rounds:            " ++ toString config.rounds,
    "  Max factor bits:   " ++ toString config.maxBits,
    "  Total moves:       " ++ toString report.totalSteps,
    "  Mismatches:        " ++ toString report.mismatches.length]
  timed := some report

def logged (log : Log) (m : Machine) : List String :=
  log.lines (m.head.journal.entries.toList.map .machine)

/-- One product. The form of the input is checked first, whatever the separator; only then is a
reserved separator refused. What is logged comes between the tape before and the tape after. -/
def ofProduct (check : String → Char → Bool) (log : Log) (patience : Nat) (input : String)
    (config : Machine.Config) (trace : Bool) : Option Reply :=
  if !check input config.separator then
    some (failure ["Rejected '" ++ input ++ "': expected <binary>"
      ++ String.singleton config.separator ++ "<binary>"])
  else
    match Machine.ofChecked check input config with
    | .error fault => some (failure [fault.message])
    | .ok start =>
      let before := if trace then [start.render] else []
      match start.calculate patience with
      | (.done (), m) =>
        let after := if trace then [m.render, toString m.steps ++ " moves"] else []
        some {
          status := 0, stdout := lines [m.content], stderr := lines (before ++ logged log m ++ after) }
      | (.failed fault, m) =>
        let stop := fault.message ++ " (stopped in " ++ m.phase.name ++ ")"
        some (failure (before ++ logged log m ++ [stop]))
      | (.unfinished, _) => none

def ofBatch (log : Log) (answer : List String → Batch.Report → Reply) :
    Outcome Batch.Report × List Batch.Event → Option Reply
  | (.done report, events) => some (answer (log.lines (events.map .batch)) report)
  | (.failed fault, events) => some (failure (log.lines (events.map .batch) ++ [fault.message]))
  | (.unfinished, _) => none

end Reply

/-- Runs a request. `none` means that `patience` was too little for a run without a step limit, or
for a draw; a larger one gives the reply. -/
def Request.reply (log : Log) (patience : Nat) : Request → Option Reply
  | .product input config trace => Reply.ofProduct isInput log patience input config trace
  | .check config seed => Reply.ofBatch log .ofCheck (Batch.run patience config seed)
  | .benchmark config seed =>
    Reply.ofBatch log (.ofBenchmark config) (Batch.run patience config seed)

end TuringMultiplier.CommandLine
