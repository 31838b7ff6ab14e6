import TuringMultiplier.Random.Generator

/-! Random factors. The width of a factor is drawn first, so that short factors are as likely as
long ones, and then a number of at most that width. -/

set_option autoImplicit false

namespace TuringMultiplier.Random

def clampWidth (maxBits : Nat) : Nat := min (max maxBits 1) 64

def factor (patience maxBits : Nat) : Draw Nat := do
  let width := 1 + (← below 32 word32 (clampWidth maxBits) patience)
  if width = 64 then word64 else below 64 word64 (Nat.pow 2 width) patience

/-- The first factor is drawn before the second. -/
def factorPair (patience maxBits : Nat) : Draw (Nat × Nat) := do
  let first ← factor patience maxBits
  let second ← factor patience maxBits
  return (first, second)

/-- The first `rounds` pairs that a seed gives, or `none` if one of their draws gave up. -/
def pairs (patience rounds maxBits : Nat) (seed : UInt64) : Option (List (Nat × Nat)) :=
  ((List.replicate rounds ()).mapM fun _ => factorPair patience maxBits).run' (.ofSeed seed)

end TuringMultiplier.Random
