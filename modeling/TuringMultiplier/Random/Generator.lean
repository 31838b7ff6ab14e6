/-! A seeded generator of random words: xoshiro256++ on four words of state, which a permuted
congruential generator fills from the seed. Equal seeds give equal words on every platform. -/

set_option autoImplicit false

namespace TuringMultiplier.Random

structure Generator where
  s0 : UInt64
  s1 : UInt64
  s2 : UInt64
  s3 : UInt64
  deriving DecidableEq, Repr

/-- Drawing may fail: a rejection that goes on too long has no value. -/
abbrev Draw (α : Type) := StateT Generator Option α

def rotateLeft (word count : UInt64) : UInt64 := (word <<< count) ||| (word >>> (64 - count))

def rotateRight32 (word count : UInt32) : UInt32 := (word >>> count) ||| (word <<< (32 - count))

namespace Generator

def seedHalf (state : UInt64) : UInt32 × UInt64 :=
  let state := state * 6364136223846793005 + 11634580027462260723
  let mixed := (((state >>> 18) ^^^ state) >>> 27).toUInt32
  (rotateRight32 mixed (state >>> 59).toUInt32, state)

/-- One word of state, low half first. -/
def seedWord (state : UInt64) : UInt64 × UInt64 :=
  let (low, state) := seedHalf state
  let (high, state) := seedHalf state
  ((high.toUInt64 <<< 32) ||| low.toUInt64, state)

def ofSeed (seed : UInt64) : Generator :=
  let (s0, state) := seedWord seed
  let (s1, state) := seedWord state
  let (s2, state) := seedWord state
  let (s3, _) := seedWord state
  ⟨s0, s1, s2, s3⟩

def next (g : Generator) : UInt64 × Generator :=
  let word := rotateLeft (g.s0 + g.s3) 23 + g.s0
  let s2 := g.s2 ^^^ g.s0
  let s3 := g.s3 ^^^ g.s1
  (word, ⟨g.s0 ^^^ s3, g.s1 ^^^ s2, s2 ^^^ (g.s1 <<< 17), rotateLeft s3 45⟩)

end Generator

def word64 : Draw Nat := fun g => let (word, g) := g.next; some (word.toNat, g)

/-- A uniform number of 32 bits: the high half of a word. -/
def word32 : Draw Nat := fun g => let (word, g) := g.next; some ((word >>> 32).toNat, g)

section Uniform

/-- The largest low part that keeps a draw below `bound` uniform, for words of `width` bits. The
bound is scaled up as far as the width allows. -/
def acceptanceZone (width bound : Nat) : Nat :=
  bound * Nat.pow 2 (width - (bound.log2 + 1)) - 1

/-- A number below `bound`, which is positive and fits the width: the high part of `bound` times a
word, drawn anew until the low part lies in the zone. Gives up after `patience` words. -/
def below (width : Nat) (word : Draw Nat) (bound : Nat) : Nat → Draw Nat
  | 0 => failure
  | patience + 1 => do
    let scaled := (← word) * bound
    if scaled % Nat.pow 2 width ≤ acceptanceZone width bound then return scaled / Nat.pow 2 width
    else below width word bound patience

end Uniform

end TuringMultiplier.Random
