import TuringMultiplier.CommandLine.Reply

/-! The speed of a benchmark, from the time it took. Times and rates are rounded to a fixed number
of decimals. -/

set_option autoImplicit false

namespace TuringMultiplier.CommandLine.Throughput

/-- `numerator / denominator` with `places` decimals, a half rounded up. -/
def decimal (numerator denominator places : Nat) : String :=
  let scaled := (numerator * Nat.pow 10 places + denominator / 2) / denominator
  let whole := toString (scaled / Nat.pow 10 places)
  if places = 0 then whole
  else
    let fraction := toString (scaled % Nat.pow 10 places)
    whole ++ "." ++ String.ofList (List.replicate (places - fraction.length) '0') ++ fraction

def duration (nanoseconds : Nat) : String :=
  if Nat.pow 10 9 ≤ nanoseconds then decimal nanoseconds (Nat.pow 10 9) 2 ++ "s"
  else if Nat.pow 10 6 ≤ nanoseconds then decimal nanoseconds (Nat.pow 10 6) 2 ++ "ms"
  else if Nat.pow 10 3 ≤ nanoseconds then decimal nanoseconds (Nat.pow 10 3) 2 ++ "µs"
  else decimal nanoseconds 1 2 ++ "ns"

def report (nanoseconds : Nat) (report : Batch.Report) : String :=
  Reply.lines [
    "  Elapsed:           " ++ duration nanoseconds,
    "  Rounds/sec:        " ++ decimal (report.rounds * Nat.pow 10 9) nanoseconds 1,
    "  Moves/sec:         " ++ decimal (report.totalSteps * Nat.pow 10 9) nanoseconds 0]

end TuringMultiplier.CommandLine.Throughput
