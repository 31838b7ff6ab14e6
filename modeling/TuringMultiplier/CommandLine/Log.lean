import TuringMultiplier.Batch

/-! The log on the error stream. What is reported has a level, and how much of it is shown is up to
the environment. The wording of a line, with its time and its fields, belongs to the logging library,
so it is a parameter here. -/

set_option autoImplicit false

namespace TuringMultiplier.CommandLine

inductive Level where
  | debug
  | info
  | warn
  deriving DecidableEq, Repr

inductive Record where
  | machine (event : Event)
  | batch (event : Batch.Event)
  deriving Repr

def Record.level : Record → Level
  | machine (.moved ..) => .info
  | machine (.phaseChanged ..) => .debug
  | batch (.mismatch _) => .warn
  | batch (.finished ..) => .debug

/-- Which records are shown. With the lowest level the machines of a batch, which run at the same
time, would write their changes of phase in no fixed order, so that setting is left out. -/
inductive Verbosity where
  | off
  | warn
  | info
  deriving DecidableEq, Repr

namespace Verbosity

def shows : Verbosity → Level → Bool
  | off, _ => false
  | warn, level => level == .warn
  | info, level => level == .warn || level == .info

def default (trace : Bool) : Verbosity := if trace then info else warn

end Verbosity

structure Log where
  verbosity : Verbosity
  /-- The line of a record. Equal records at different times have different lines. -/
  line : Nat → Record → String

namespace Log

def off : Log := ⟨.off, fun _ _ => ""⟩

def lines (log : Log) (records : List Record) : List String :=
  (records.filter fun record => log.verbosity.shows record.level).mapIdx log.line

variable {log : Log} {records : List Record}

theorem lines_of_hidden (hidden : ∀ record ∈ records, log.verbosity.shows record.level = false) :
    log.lines records = [] := by
  have nothing : records.filter (fun record => log.verbosity.shows record.level) = [] := by
    simpa using hidden
  rw [lines, nothing, List.mapIdx_nil]

theorem length_lines_of_shown (shown : ∀ record ∈ records, log.verbosity.shows record.level) :
    (log.lines records).length = records.length := by
  rw [lines, List.length_mapIdx, List.filter_eq_self.mpr shown]

theorem lines_append_of_hidden (records : List Record) {last : Record}
    (hidden : log.verbosity.shows last.level = false) :
    log.lines (records ++ [last]) = log.lines records := by
  rw [lines, List.filter_append, List.filter_cons_of_neg (by simp [hidden]), List.filter_nil,
    List.append_nil, lines]

theorem shows_debug (verbosity : Verbosity) : verbosity.shows .debug = false := by
  cases verbosity <;> rfl

end Log

end TuringMultiplier.CommandLine
