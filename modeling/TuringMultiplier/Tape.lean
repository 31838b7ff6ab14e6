import TuringMultiplier.Fault

/-! A tape that is infinite in both directions and stores only the occupied span. Position 0 is the
leftmost stored cell; every position outside the span reads as blank. Writing at the left end moves
the numbering, so `write` also answers where the written cell is afterwards. -/

set_option autoImplicit false

namespace TuringMultiplier

structure Tape where
  cells : Array Symbol
  /-- What separates the factors on this tape when it is printed. -/
  separator : Char
  deriving DecidableEq, Repr

namespace Tape

def isBlank (s : Symbol) : Bool := s == .blank

def trim (row : List Symbol) : List Symbol :=
  ((row.dropWhile isBlank).reverse.dropWhile isBlank).reverse

/-- One cell for each character. A character that prints no symbol refuses the whole text. -/
def ofText (text : String) (separator : Char) : Except Fault Tape :=
  match text.toList.mapM (Symbol.ofGlyph separator) with
  | some row => .ok ⟨(trim row).toArray, separator⟩
  | none => .error (.rejected text separator)

def length (t : Tape) : Nat := t.cells.size

def isEmpty (t : Tape) : Bool := t.cells.isEmpty

/-- Total: cells that are not stored are blank. -/
def read (t : Tape) : Int → Symbol
  | .ofNat i => t.cells.getD i .blank
  | .negSucc _ => .blank

section Write

def skipBlanks (cells : Array Symbol) (i : Nat) : Nat :=
  if h : i < cells.size then
    if cells[i] = .blank then skipBlanks cells (i + 1) else i
  else i
termination_by cells.size - i

/-- How many cells go when the leftmost one does: that cell and the blanks it leaves exposed. -/
def frontRun (cells : Array Symbol) : Nat := min cells.size (skipBlanks cells 1)

/-- Writes a blank. Left of the tape and on its first cell this takes away the leftmost cell, on the
last cell it takes away that one, in both cases with the blanks behind it. -/
def erase : Tape → Int → Tape × Int
  | ⟨cells, separator⟩, position =>
    if position ≤ 0 then
      let gone := frontRun cells
      (⟨cells.extract gone cells.size, separator⟩, position - gone)
    else if position = (cells.size : Int) - 1 then
      (⟨cells.pop.popWhile isBlank, separator⟩, position)
    else
      (⟨cells.setIfInBounds position.toNat .blank, separator⟩, position)

/-- Writes a symbol that is not a blank. Away from the span the gap is filled with blanks. -/
def put : Tape → Int → Symbol → Tape × Int
  | ⟨cells, separator⟩, .negSucc gap, s =>
    (⟨#[s] ++ Array.replicate gap Symbol.blank ++ cells, separator⟩, 0)
  | ⟨cells, separator⟩, .ofNat i, s =>
    if i < cells.size then (⟨cells.setIfInBounds i s, separator⟩, i)
    else (⟨(cells ++ Array.replicate (i - cells.size) Symbol.blank).push s, separator⟩, i)

/-- Writes `s` at `position` and answers where that cell is once the tape is numbered anew. -/
def write (t : Tape) (position : Int) (s : Symbol) : Tape × Int :=
  if s = .blank then t.erase position else t.put position s

end Write

section Print

def content (t : Tape) : String :=
  String.ofList (t.cells.toList.map (Symbol.glyph t.separator))

def window (t : Tape) (start : Int) (count : Nat) : List Char :=
  (List.range count).map fun (k : Nat) => (t.read (start + k)).glyph t.separator

def render (t : Tape) (position : Int) : String :=
  let first := min position 0
  let last := max position ((t.length : Int) - 1)
  String.ofList (t.window first (position - first).toNat
    ++ Symbol.headGlyph :: t.window position (last - position + 1).toNat)

end Print

def Trimmed (t : Tape) : Prop :=
  t.cells[0]? ≠ some .blank ∧ t.cells.back? ≠ some .blank

end Tape

end TuringMultiplier
