import TuringMultiplier.Batch

/-! The command line: which arguments ask for which run, and which are refused. Options have long
names only, `-h` apart, and may stand anywhere. A value follows its option as the next argument or
behind an equals sign. Behind a lone `--` everything is input. -/

set_option autoImplicit false

namespace TuringMultiplier.CommandLine

inductive Refusal where
  | helpRequested
  | unknownOption (argument : String)
  | missingValue (option : String)
  | unexpectedValue (option : String)
  | invalidValue (option value : String)
  | repeatedOption (option : String)
  | extraInput (argument : String)
  | missingInput
  | inputAndRandom
  deriving DecidableEq, Repr

inductive Request where
  | product (input : String) (config : Machine.Config) (trace : Bool)
  /-- Random products, with a summary and every mismatch. -/
  | check (config : Batch.Config) (seed : UInt64)
  /-- Random products, with the counts only. -/
  | benchmark (config : Batch.Config) (seed : UInt64)
  deriving DecidableEq, Repr

structure Arguments where
  input : Option String := none
  delimiter : Option Char := none
  stepLimit : Option Nat := none
  trace : Bool := false
  random : Option Nat := none
  seed : Option Nat := none
  maxBits : Option Nat := none
  benchmark : Bool := false
  deriving DecidableEq, Repr

section Values

def decimal? (text : List Char) : Option Nat :=
  if text ≠ [] ∧ text.all Char.isDigit then
    some (text.foldl (fun n c => 10 * n + (c.toNat - '0'.toNat)) 0)
  else none

/-- A number up to `bound`; one plus sign may stand in front. -/
def number? (bound : Nat) (text : String) : Option Nat := do
  let n ← match text.toList with
    | '+' :: rest => decimal? rest
    | rest => decimal? rest
  if n ≤ bound then some n else none

def maxWord : Nat := Nat.pow 2 64 - 1

def character? (text : String) : Option Char :=
  match text.toList with
  | [c] => some c
  | _ => none

/-- The width of a random factor as the command line takes it. Unlike a batch, it does not accept
values out of range. -/
def width? (text : String) : Option Nat := do
  let n ← number? 64 text
  if 1 ≤ n then some n else none

end Values

inductive Flag where
  | trace
  | benchmark
  deriving DecidableEq, Repr

inductive Setting where
  | delimiter
  | stepLimit
  | random
  | seed
  | maxBits
  deriving DecidableEq, Repr

def flag? : String → Option Flag
  | "--trace" => some .trace
  | "--benchmark" => some .benchmark
  | _ => none

def setting? : String → Option Setting
  | "--delimiter" => some .delimiter
  | "--step-limit" => some .stepLimit
  | "--random" => some .random
  | "--seed" => some .seed
  | "--max-bits" => some .maxBits
  | _ => none

namespace Arguments

def fill {α : Type} (option : String) (place : Option α) (value : String)
    (read : String → Option α) : Except Refusal (Option α) :=
  match place, read value with
  | some _, _ => .error (.repeatedOption option)
  | none, some a => .ok (some a)
  | none, none => .error (.invalidValue option value)

def set (a : Arguments) (option value : String) : Setting → Except Refusal Arguments
  | .delimiter => return { a with delimiter := ← fill option a.delimiter value character? }
  | .stepLimit => return { a with stepLimit := ← fill option a.stepLimit value (number? maxWord) }
  | .random => return { a with random := ← fill option a.random value (number? maxWord) }
  | .seed => return { a with seed := ← fill option a.seed value (number? maxWord) }
  | .maxBits => return { a with maxBits := ← fill option a.maxBits value width? }

def raise (a : Arguments) (option : String) : Flag → Except Refusal Arguments
  | .trace => if a.trace then .error (.repeatedOption option) else .ok { a with trace := true }
  | .benchmark =>
    if a.benchmark then .error (.repeatedOption option) else .ok { a with benchmark := true }

def addInput (a : Arguments) (argument : String) : Except Refusal Arguments :=
  match a.input with
  | some _ => .error (.extraInput argument)
  | none => .ok { a with input := some argument }

/-- A lone hyphen is a value like any other; what else starts with one is not. -/
def looksLikeOption (argument : String) : Bool :=
  argument.toList.head? == some '-' && argument != "-"

/-- What follows the short form in the same argument is not looked at. -/
def asksForHelp (argument : String) : Bool :=
  argument == "--help" || "-h".isPrefixOf argument

def splitAttached (argument : String) : String × Option String :=
  match argument.toList.span (· ≠ '=') with
  | (name, []) => (String.ofList name, none)
  | (name, _ :: value) => (String.ofList name, some (String.ofList value))

def read : List String → Arguments → Except Refusal Arguments
  | [], a => .ok a
  | argument :: rest, a =>
    if argument = "--" then rest.foldlM addInput a
    else if asksForHelp argument then .error .helpRequested
    else if !looksLikeOption argument then do read rest (← a.addInput argument)
    else
      let (name, attached) := splitAttached argument
      match flag? name, setting? name, attached, rest with
      | some flag, _, none, rest => do read rest (← a.raise name flag)
      | some _, _, some _, _ => .error (.unexpectedValue name)
      | none, some setting, some value, rest => do read rest (← a.set name value setting)
      | none, some setting, none, value :: rest =>
        if looksLikeOption value then .error (.missingValue name)
        else do read rest (← a.set name value setting)
      | none, some _, none, [] => .error (.missingValue name)
      | none, none, _, _ => .error (.unknownOption argument)

/-- A step limit of 0 on the command line means none. -/
def limit (a : Arguments) : Option Nat :=
  match a.stepLimit.getD Machine.defaultStepLimit with
  | 0 => none
  | n => some n

def separator (a : Arguments) : Char := a.delimiter.getD Machine.defaultSeparator

def batch (a : Arguments) (rounds : Nat) : Batch.Config where
  rounds := rounds
  maxBits := a.maxBits.getD 12
  stepLimit := a.limit
  separator := a.separator

/-- Either an input or a number of random rounds is needed, and not both. Beside an input, the
options of a batch have no effect. -/
def request (a : Arguments) : Except Refusal Request :=
  match a.input, a.random with
  | some _, some _ => .error .inputAndRandom
  | none, none => .error .missingInput
  | some input, none =>
    let mode := if a.trace then .step else .run
    .ok (.product input ⟨a.separator, mode, a.limit⟩ a.trace)
  | none, some rounds =>
    let seed := (a.seed.getD 0).toUInt64
    .ok (if a.benchmark then .benchmark (a.batch rounds) seed else .check (a.batch rounds) seed)

end Arguments

def request (arguments : List String) : Except Refusal Request := do
  (← Arguments.read arguments {}).request

namespace Refusal

/-- Asking for help is not a mistake. -/
def status : Refusal → Nat
  | helpRequested => 0
  | _ => 2

def message : Refusal → String
  | helpRequested =>
    "Binary multiplication on a single-tape Turing machine\n\n" ++
    "Usage: [OPTIONS] <INPUT>\n\n" ++
    "  <INPUT>               Two binary numbers around the delimiter, such as 1101x10001\n" ++
    "  --delimiter <CHAR>    Character between the two factors [default: x]\n" ++
    "  --step-limit <N>      Most moves per machine, 0 for no limit [default: 4294967296]\n" ++
    "  --trace               Show the tape before and after\n" ++
    "  --random <N>          Multiply N random pairs and check every product\n" ++
    "  --seed <N>            Seed of the random pairs [default: 0]\n" ++
    "  --max-bits <N>        Widest random factor, 1 to 64 bits [default: 12]\n" ++
    "  --benchmark           Print counts instead of a summary (with --random)"
  | unknownOption argument => "error: unknown option " ++ argument
  | missingValue option => "error: " ++ option ++ " needs a value"
  | unexpectedValue option => "error: " ++ option ++ " takes no value"
  | invalidValue option value => "error: " ++ option ++ " cannot be " ++ Text.quoted value
  | repeatedOption option => "error: " ++ option ++ " is given twice"
  | extraInput argument => "error: unexpected argument " ++ Text.quoted argument
  | missingInput => "error: no input is given"
  | inputAndRandom => "error: --random takes no input"

end Refusal

end TuringMultiplier.CommandLine
