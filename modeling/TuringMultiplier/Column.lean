import TuringMultiplier.Symbol

/-! One column of a binary addition. A carry is a Boolean: `true` while one is pending. -/

set_option autoImplicit false

namespace TuringMultiplier.Column

def sum (top bottom carry : Bool) : Bool := (top ^^ bottom) ^^ carry

def carryOut (top bottom carry : Bool) : Bool := (top && bottom) || (carry && (top || bottom))

theorem sum_add_two_mul_carryOut (top bottom carry : Bool) :
    (sum top bottom carry).toNat + 2 * (carryOut top bottom carry).toNat
      = top.toNat + bottom.toNat + carry.toNat := by
  cases top <;> cases bottom <;> cases carry <;> rfl

def add (top bottom : Symbol) (carry : Bool) : Option (Symbol × Bool) := do
  let t ← top.bit
  let b ← bottom.bit
  return (.standIn (sum t b carry), carryOut t b carry)

theorem add_eq_none_iff {top bottom : Symbol} {carry : Bool} :
    add top bottom carry = none ↔ top.bit = none ∨ bottom.bit = none := by
  cases t : top.bit <;> cases b : bottom.bit <;> simp [add, t, b]

end TuringMultiplier.Column
