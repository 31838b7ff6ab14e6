/-! Regular expressions, as far as the form of an input needs them: what a pattern matches, how it is
written, and what an engine that reads written patterns is relied on for. -/

set_option autoImplicit false

namespace TuringMultiplier

namespace Pattern

inductive Atom where
  | literal (c : Char)
  | oneOf (chars : List Char)
  deriving DecidableEq, Repr

inductive Part where
  | start
  | stop
  | once (a : Atom)
  | many (a : Atom)
  deriving DecidableEq, Repr

end Pattern

abbrev Pattern := List Pattern.Part

namespace Pattern

section Matching

def Atom.admits : Atom → Char → Bool
  | literal c, d => d == c
  | oneOf chars, d => chars.contains d

def Part.Matches : Part → (before piece after : List Char) → Prop
  | start, before, piece, _ => before = [] ∧ piece = []
  | stop, _, piece, after => piece = [] ∧ after = []
  | once a, _, piece, _ => ∃ c, piece = [c] ∧ a.admits c
  | many a, _, piece, _ => piece ≠ [] ∧ ∀ c ∈ piece, a.admits c

def MatchesAt : Pattern → (before rest : List Char) → Prop
  | [], _, _ => True
  | part :: p, before, rest => ∃ piece after, rest = piece ++ after ∧
      part.Matches before piece after ∧ MatchesAt p (before ++ piece) after

def Occurs (p : Pattern) (text : List Char) : Prop :=
  ∃ before rest, text = before ++ rest ∧ p.MatchesAt before rest

end Matching

section Writing

variable (escape : String → String)

def Atom.written : Atom → String
  | literal c => escape (String.singleton c)
  | oneOf chars => "[" ++ String.ofList chars ++ "]"

def Part.written : Part → String
  | start => "^"
  | stop => "$"
  | once a => a.written escape
  | many a => a.written escape ++ "+"

def written (p : Pattern) : String := String.join (p.map (Part.written escape))

end Writing

/-- Between brackets only letters and digits stand for themselves. -/
def Atom.Plain : Atom → Prop
  | literal _ => True
  | oneOf chars => chars ≠ [] ∧ chars.Nodup ∧ ∀ c ∈ chars, c.isAlphanum

def Part.Plain : Part → Prop
  | start | stop => True
  | once a | many a => a.Plain

def Plain (p : Pattern) : Prop := ∀ part ∈ p, part.Plain

end Pattern

/-- Something that reads patterns and looks for them in texts. -/
structure Engine where
  /-- Writes a text so that it stands for itself in a pattern. -/
  escape : String → String
  /-- The search for a pattern, unless the pattern is refused. -/
  compile : String → Option (String → Bool)

/-- What can be relied on. A pattern of many parts might be refused for its size. -/
structure Engine.Standard (e : Engine) : Prop where
  compiles : ∀ p : Pattern, p.Plain → p.length ≤ 8 → (e.compile (p.written e.escape)).isSome
  finds : ∀ p : Pattern, p.Plain → ∀ search ∈ e.compile (p.written e.escape),
    ∀ text, search text = true ↔ p.Occurs text.toList

end TuringMultiplier
