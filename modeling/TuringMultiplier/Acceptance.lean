import TuringMultiplier.Machine
import TuringMultiplier.Pattern

/-! The form of an input, asked of an engine for regular expressions: digits, the separator and
digits between the two ends of the text. The engine answers as `isInput` does, so a machine is built
for the same inputs with either check. -/

set_option autoImplicit false

namespace TuringMultiplier.Engine

def inputSearch (e : Engine) (separator : Char) : Option (String → Bool) :=
  e.compile ("^[01]+" ++ e.escape (String.singleton separator) ++ "[01]+$")

def isAccepted (e : Engine) (text : String) : Bool :=
  match e.inputSearch Machine.defaultSeparator with
  | some search => search text
  | none => false

def isAcceptedWith (e : Engine) (text : String) (separator : Char) : Bool :=
  if separator = Machine.defaultSeparator then e.isAccepted text
  else
    match e.inputSearch separator with
    | some search => search text
    | none => false

def ofInput (e : Engine) (input : String) (config : Machine.Config) : Except Fault Machine :=
  Machine.ofChecked e.isAcceptedWith input config

end TuringMultiplier.Engine
