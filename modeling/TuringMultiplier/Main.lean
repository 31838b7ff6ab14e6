import TuringMultiplier.CommandLine.Throughput

/-! The program: reads its arguments, runs what they ask for, and prints the reply. -/

set_option autoImplicit false

namespace TuringMultiplier.CommandLine

/-- Runs a request with more and more patience until there is a reply. Only a run without a step
limit ever asks for more. -/
partial def Request.settle (log : Log) (asked : Request) (patience : Nat) : IO Reply :=
  match asked.reply log patience with
  | some reply => pure reply
  | none => asked.settle log (2 * patience)

def plainLine : Record → String
  | .machine (.moved tape steps position) =>
    "INFO " ++ tape ++ " step=" ++ toString steps ++ " position=" ++ toString position
  | .machine (.phaseChanged before after steps length) =>
    "DEBUG phase transition from=" ++ before.name ++ " to=" ++ after.name ++ " steps="
      ++ toString steps ++ " tape_len=" ++ toString length
  | .batch (.mismatch found) => "WARN tape does not hold the product " ++ Reply.mismatchLine found
  | .batch (.finished rounds totalSteps mismatches) =>
    "DEBUG batch finished rounds=" ++ toString rounds ++ " total_steps=" ++ toString totalSteps
      ++ " mismatches=" ++ toString mismatches

def verbosity? : String → Option Verbosity
  | "off" | "error" => some .off
  | "warn" => some .warn
  | "info" => some .info
  | _ => none

end TuringMultiplier.CommandLine

open TuringMultiplier.CommandLine

def main (arguments : List String) : IO UInt32 := do
  let wanted := (← IO.getEnv "RUST_LOG").bind verbosity?
  let asked := do
    let given ← Arguments.read arguments {}
    let log : Log := ⟨wanted.getD (.default given.trace), fun _ => plainLine⟩
    return (log, ← given.request)
  match asked with
  | .error refusal =>
    if refusal = .helpRequested then IO.println refusal.message else IO.eprintln refusal.message
    return refusal.status.toUInt32
  | .ok (log, asked) =>
    let start ← IO.monoNanosNow
    let reply ← asked.settle log (Nat.pow 2 40)
    let nanoseconds := (← IO.monoNanosNow) - start
    IO.print reply.stdout
    IO.eprint reply.stderr
    if let some batch := reply.timed then
      IO.eprint (Throughput.report nanoseconds batch)
    return reply.status.toUInt32
