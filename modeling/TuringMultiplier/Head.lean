import TuringMultiplier.Journal

/-! The read and write head. It owns the tape, counts its moves, and carries a fuse: a limit on the
number of moves. The move that exceeds the limit is made and counted like any other, and only then
does the fuse report it. -/

set_option autoImplicit false

namespace TuringMultiplier

inductive Direction where
  | left
  | right
  deriving DecidableEq, Repr

def Direction.offset : Direction → Int
  | left => -1
  | right => 1

/-- The position may lie outside the tape, where everything reads as blank. Neither it nor the count
of moves is bounded, although words of 64 bits hold them: a move takes either only one further, so no
run lives to see them overflow. -/
structure Head where
  tape : Tape
  position : Int
  /-- What the head saw when it last moved or wrote. -/
  symbol : Symbol
  steps : Nat := 0
  stepLimit : Option Nat
  journal : Journal
  deriving DecidableEq, Repr

namespace Head

def ofTape (tape : Tape) (stepLimit : Option Nat) (mode : Mode) : Head where
  tape := tape
  position := 0
  symbol := tape.read 0
  stepLimit := stepLimit
  journal := { mode }

def ofText (text : String) (separator : Char) (stepLimit : Option Nat) (mode : Mode) :
    Except Fault Head :=
  return ofTape (← Tape.ofText text separator) stepLimit mode

def Coherent (h : Head) : Prop := h.symbol = h.tape.read h.position

/-- The cells as seen from the head: 0 is the cell under it, 1 the one to its right. -/
def view (h : Head) (offset : Int) : Symbol := h.tape.read (h.position + offset)

def render (h : Head) : String := h.tape.render h.position

def write : Head → Symbol → Head
  | ⟨tape, position, _, steps, stepLimit, journal⟩, s =>
    let (tape, position) := tape.write position s
    ⟨tape, position, tape.read position, steps, stepLimit, journal⟩

def mark (h : Head) (symbols : List Symbol) : Head := symbols.foldl write h

def move : Head → Direction → Head
  | ⟨tape, position, _, steps, stepLimit, journal⟩, direction =>
    let position := position + direction.offset
    let journal := journal.noteMove tape (steps + 1) position
    ⟨tape, position, tape.read position, steps + 1, stepLimit, journal⟩

/-- The fault of a head that has moved too often. Once blown, a fuse stays blown. -/
def fuse (h : Head) : Option Fault :=
  match h.stepLimit with
  | some limit => if limit < h.steps then some (.stepLimitExceeded limit) else none
  | none => none

def travel (direction : Direction) : Nat → Head → Except Fault Head
  | 0, h => .ok h
  | count + 1, h =>
    let h := h.move direction
    match h.fuse with
    | some fault => .error fault
    | none => travel direction count h

/-- Turns after which a control that moves on every turn is through: with a fuse, the moves left on
it and one more. Only without a fuse does it take the caller's `patience`. -/
def turns (h : Head) (patience : Nat) : Nat :=
  match h.stepLimit with
  | some limit => limit - h.steps + 1
  | none => patience

@[simp] theorem mark_nil (h : Head) : h.mark [] = h := rfl

@[simp] theorem mark_cons (h : Head) (s : Symbol) (symbols : List Symbol) :
    h.mark (s :: symbols) = (h.write s).mark symbols := rfl

@[simp] theorem steps_mark (h : Head) (symbols : List Symbol) :
    (h.mark symbols).steps = h.steps := by
  induction symbols generalizing h with
  | nil => rfl
  | cons s symbols ih => exact ih (h.write s)

@[simp] theorem stepLimit_mark (h : Head) (symbols : List Symbol) :
    (h.mark symbols).stepLimit = h.stepLimit := by
  induction symbols generalizing h with
  | nil => rfl
  | cons s symbols ih => exact ih (h.write s)

@[simp] theorem steps_move (h : Head) (d : Direction) : (h.move d).steps = h.steps + 1 := rfl

@[simp] theorem stepLimit_move (h : Head) (d : Direction) :
    (h.move d).stepLimit = h.stepLimit := rfl

theorem coherent_write (h : Head) (s : Symbol) : (h.write s).Coherent := rfl

theorem coherent_move (h : Head) (d : Direction) : (h.move d).Coherent := rfl

end Head

end TuringMultiplier
