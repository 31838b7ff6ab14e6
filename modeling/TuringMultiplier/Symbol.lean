/-! The ten symbols of the tape alphabet and the glyphs they are printed with. Every symbol but the
delimiter has a glyph of its own; the delimiter takes whatever character the two factors are
separated by. -/

set_option autoImplicit false

namespace TuringMultiplier

/-- The tape alphabet: two digits, the delimiter, the blank, and six marks that only the machine
writes. -/
inductive Symbol where
  | zero
  | one
  | delimiter
  | blank
  /-- A digit of the first factor, or of the top term of an addition, that has been used up. -/
  | consumed
  /-- The right end of a number. It separates the terms. -/
  | endMark
  /-- A consumed digit whose place value has already been written behind the new term. -/
  | tenner
  /-- A trailing zero still to be filled in; later the mark in front of the leftmost term. -/
  | shift
  | standInZero
  | standInOne
  deriving DecidableEq, Repr, Inhabited

namespace Symbol

def digit (bit : Bool) : Symbol := if bit then one else zero

def standIn (bit : Bool) : Symbol := if bit then standInOne else standInZero

def bit : Symbol → Option Bool
  | zero => some false
  | one => some true
  | _ => none

def restored : Symbol → Symbol
  | standInZero => zero
  | standInOne => one
  | s => s

@[simp] theorem bit_digit (b : Bool) : (digit b).bit = some b := by cases b <;> rfl

@[simp] theorem bit_standIn (b : Bool) : (standIn b).bit = none := by cases b <;> rfl

@[simp] theorem restored_standIn (b : Bool) : (standIn b).restored = digit b := by cases b <;> rfl

theorem bit_eq_some_iff {s : Symbol} {b : Bool} : s.bit = some b ↔ s = digit b := by
  cases s <;> cases b <;> decide

def name : Symbol → String
  | zero => "Zero"
  | one => "One"
  | delimiter => "Delimiter"
  | blank => "Blank"
  | consumed => "Consumed"
  | endMark => "End"
  | tenner => "Tenner"
  | shift => "Shift"
  | standInZero => "StandInZero"
  | standInOne => "StandInOne"

/-- Printed in front of the cell under the head. It is not a symbol and never on a tape. -/
def headGlyph : Char := 'Q'

def glyph (separator : Char) : Symbol → Char
  | zero => '0'
  | one => '1'
  | delimiter => separator
  | blank => '-'
  | consumed => 'd'
  | endMark => 'y'
  | tenner => 'z'
  | shift => 's'
  | standInZero => 'a'
  | standInOne => 'b'

/-- The symbol that a character prints whatever the separator is. No character does so for the
delimiter. -/
def ofFixedGlyph : Char → Option Symbol
  | '0' => some zero
  | '1' => some one
  | '-' => some blank
  | 'd' => some consumed
  | 'y' => some endMark
  | 'z' => some tenner
  | 's' => some shift
  | 'a' => some standInZero
  | 'b' => some standInOne
  | _ => none

/-- Reads one character. The separator wins over a fixed glyph, so a separator taken from the
alphabet hides the symbol it belongs to. -/
def ofGlyph (separator c : Char) : Option Symbol :=
  if c = separator then some delimiter else ofFixedGlyph c

/-- Characters that cannot separate factors, because a machine already prints them. -/
def isReserved (c : Char) : Bool := c == headGlyph || (ofFixedGlyph c).isSome

theorem ofFixedGlyph_glyph (separator : Char) {s : Symbol} (h : s ≠ delimiter) :
    ofFixedGlyph (s.glyph separator) = some s := by
  cases s <;> first | rfl | exact absurd rfl h

theorem glyph_of_ofGlyph {separator c : Char} {s : Symbol} (h : ofGlyph separator c = some s) :
    s.glyph separator = c := by
  unfold ofGlyph at h
  split at h
  · next hc => cases h; exact hc.symm
  · unfold ofFixedGlyph at h
    split at h <;> first | (cases h; rfl) | cases h

theorem ofGlyph_glyph {separator : Char} (free : (ofFixedGlyph separator).isNone) (s : Symbol) :
    ofGlyph separator (s.glyph separator) = some s := by
  by_cases h : s = delimiter
  · subst h; simp [ofGlyph, glyph]
  · have other : s.glyph separator ≠ separator := by
      intro same
      have := ofFixedGlyph_glyph separator h
      rw [same] at this
      simp [this] at free
    simp [ofGlyph, other, ofFixedGlyph_glyph separator h]

end Symbol

end TuringMultiplier
