import TuringMultiplier.Head
import TuringMultiplier.Proofs.Writes

/-! The occupied cells of a tape, split at the head. A head on a span stays within one cell of the
tape, erases at the two ends only, and so never leaves a blank between two cells. Writing and moving
are local on a span, and `Head.Shows` ties a span to the position based tape of a head. -/

set_option autoImplicit false

namespace TuringMultiplier

structure Span where
  /-- The cells left of the head, nearest first. -/
  behind : List Symbol
  /-- The cell under the head and those right of it. In front of the tape it starts with a blank
  that is not stored, and behind the tape it is empty. -/
  ahead : List Symbol
  deriving DecidableEq, Repr

namespace Span

def symbol (a : Span) : Symbol := a.ahead.headD .blank

def leftOf : List Symbol → List Symbol → Span
  | [], ahead => ⟨[], .blank :: ahead⟩
  | s :: behind, ahead => ⟨behind, s :: ahead⟩

/-- The writes that keep the cells together: a symbol that is not a blank anywhere, a blank only on
the first or the last cell. -/
inductive Mark : Symbol → Span → Span → Prop where
  | put {behind ahead : List Symbol} {old new : Symbol} (solid : new ≠ .blank) :
      Mark new ⟨behind, old :: ahead⟩ ⟨behind, new :: ahead⟩
  | append {behind : List Symbol} {new : Symbol} (solid : new ≠ .blank) :
      Mark new ⟨behind, []⟩ ⟨behind, [new]⟩
  | eraseFirst {ahead : List Symbol} {old : Symbol} (stored : old ≠ .blank)
      (next : ahead.head? ≠ some .blank) : Mark .blank ⟨[], old :: ahead⟩ ⟨[], .blank :: ahead⟩
  | eraseLast {behind : List Symbol} {neighbour old : Symbol} (solid : neighbour ≠ .blank) :
      Mark .blank ⟨neighbour :: behind, [old]⟩ ⟨neighbour :: behind, []⟩

inductive Marks : List Symbol → Span → Span → Prop where
  | keep (a : Span) : Marks [] a a
  | next {s : Symbol} {w : List Symbol} {a b c : Span} (mark : Mark s a b) (rest : Marks w b c) :
      Marks (s :: w) a c

theorem Marks.alone {s : Symbol} {a b : Span} (mark : Mark s a b) : Marks [s] a b :=
  .next mark (.keep b)

inductive Moves : Direction → Span → Span → Prop where
  | right {behind ahead : List Symbol} {s : Symbol} (stored : s ≠ .blank) :
      Moves .right ⟨behind, s :: ahead⟩ ⟨s :: behind, ahead⟩
  | enter {ahead : List Symbol} : Moves .right ⟨[], .blank :: ahead⟩ ⟨[], ahead⟩
  | left {behind ahead : List Symbol} (inside : behind ≠ [] ∨ ahead.head? ≠ some .blank) :
      Moves .left ⟨behind, ahead⟩ (leftOf behind ahead)

end Span

namespace Tape

variable {t : Tape}

theorem write_of_ne_blank {position : Int} {s : Symbol} (solid : s ≠ .blank) :
    t.write position s = t.put position s := if_neg solid

theorem put_front (t : Tape) (new : Symbol) :
    ∃ after : Tape, after.cells.toList = new :: t.cells.toList ∧ t.put (-1) new = (after, 0) := by
  obtain ⟨cells, separator⟩ := t
  refine ⟨⟨#[new] ++ Array.replicate 0 Symbol.blank ++ cells, separator⟩, ?_, rfl⟩
  simp

theorem put_stored {behind ahead : List Symbol} {old : Symbol} (new : Symbol)
    (split : t.cells.toList = behind.reverse ++ old :: ahead) :
    ∃ after : Tape, after.cells.toList = behind.reverse ++ new :: ahead ∧
      t.put behind.length new = (after, (behind.length : Int)) := by
  have bound : behind.length < t.cells.size := by rw [← Array.length_toList, split]; simp
  refine ⟨⟨t.cells.setIfInBounds behind.length new, t.separator⟩, ?_, ?_⟩
  · rw [Array.toList_setIfInBounds, split]; simp
  · exact if_pos bound

theorem put_behind {behind : List Symbol} (new : Symbol) (split : t.cells.toList = behind.reverse) :
    ∃ after : Tape, after.cells.toList = behind.reverse ++ [new] ∧
      t.put behind.length new = (after, (behind.length : Int)) := by
  have size : t.cells.size = behind.length := by rw [← Array.length_toList, split]; simp
  have out : ¬ behind.length < t.cells.size := by omega
  refine ⟨⟨(t.cells ++ Array.replicate (behind.length - t.cells.size) Symbol.blank).push new,
    t.separator⟩, ?_, ?_⟩
  · simp [split, size]
  · exact if_neg out

-- At either end a cell goes alone, since its neighbour is not a blank.
theorem erase_first {ahead : List Symbol} {old : Symbol} (split : t.cells.toList = old :: ahead)
    (next : ahead.head? ≠ some .blank) :
    ∃ after : Tape, after.cells.toList = ahead ∧
      t.erase 0 = (after, -1) := by
  have size : t.cells.size = ahead.length + 1 := by rw [← Array.length_toList, split]; simp
  have second : t.cells[1]? = ahead.head? := by
    rw [← Array.getElem?_toList, split]; simp [List.head?_eq_getElem?]
  have stop : skipBlanks t.cells 1 = 1 :=
    skipBlanks_eq (Nat.le_refl 1) (fun j least less => absurd less (Nat.not_lt.mpr least))
      (second ▸ next)
  have run : frontRun t.cells = 1 := by rw [frontRun, stop, size]; omega
  refine ⟨⟨t.cells.extract 1 t.cells.size, t.separator⟩, ?_, ?_⟩
  · simp [Array.toList_extract, List.extract, split, size]
  · obtain ⟨cells, separator⟩ := t
    simp [erase, run]

theorem erase_last {behind : List Symbol} {neighbour old : Symbol} (solid : neighbour ≠ .blank)
    (split : t.cells.toList = (neighbour :: behind).reverse ++ [old]) :
    ∃ after : Tape, after.cells.toList = (neighbour :: behind).reverse ∧
      t.erase (neighbour :: behind).length = (after, ((neighbour :: behind).length : Int)) := by
  have size : t.cells.size = behind.length + 2 := by rw [← Array.length_toList, split]; simp
  have popped : t.cells.pop = (neighbour :: behind).reverse.toArray := by
    apply Array.toList_inj.mp
    simp [split]
  have kept : t.cells.pop.popWhile isBlank = (neighbour :: behind).reverse.toArray := by
    rw [popped, List.popWhile_toArray]
    simp [isBlank, solid]
  have inside : ¬ ((neighbour :: behind).length : Int) ≤ 0 := by simp
  have last : ((neighbour :: behind).length : Int) = (t.cells.size : Int) - 1 := by
    rw [size]; simp; omega
  refine ⟨⟨(neighbour :: behind).reverse.toArray, t.separator⟩, by simp, ?_⟩
  obtain ⟨cells, separator⟩ := t
  rw [erase, if_neg inside, if_pos last, kept]

end Tape

namespace Head

/-- The head stands on the span, or in front of it with the first cell behind a blank. -/
structure Shows (h : Head) (a : Span) : Prop where
  coherent : h.Coherent
  solid : h.tape.cells.toList.head? ≠ some .blank
  place : (h.tape.cells.toList = a.behind.reverse ++ a.ahead ∧ h.position = a.behind.length) ∨
    (a.behind = [] ∧ a.ahead = .blank :: h.tape.cells.toList ∧ h.position = -1)

theorem Shows.symbol {h : Head} {a : Span} (shows_ : h.Shows a) : h.symbol = a.symbol := by
  rw [shows_.coherent]
  rcases shows_.place with ⟨split, position⟩ | ⟨-, ahead, position⟩
  · rw [position]
    change h.tape.cells.getD a.behind.length .blank = _
    rw [Array.getD_eq_getD_getElem?, ← Array.getElem?_toList, split]
    rw [List.getElem?_append_right (by simp)]
    simp [Span.symbol, List.headD_eq_head?_getD, List.head?_eq_getElem?]
  · rw [position, Span.symbol, ahead]
    rfl

theorem head?_append_ne {row before after : List Symbol} (front : (row ++ before).head? ≠ some .blank)
    (next : after.head? ≠ some .blank) : (row ++ after).head? ≠ some .blank := by
  cases row with
  | nil => exact next
  | cons s row => simpa using front

theorem Shows.of_write {h : Head} {b : Span} {s : Symbol} {after : Tape} {position : Int}
    (written : h.tape.write h.position s = (after, position))
    (solid : after.cells.toList.head? ≠ some .blank)
    (place : (after.cells.toList = b.behind.reverse ++ b.ahead ∧ position = b.behind.length) ∨
      (b.behind = [] ∧ b.ahead = .blank :: after.cells.toList ∧ position = -1)) :
    (h.write s).Shows b := by
  have there : (h.write s).tape = after ∧ (h.write s).position = position := by
    simp [Head.write, written]
  obtain ⟨rfl, rfl⟩ := there
  exact ⟨coherent_write h s, solid, place⟩

theorem Shows.write {h : Head} {a b : Span} {s : Symbol} (shown : h.Shows a)
    (mark : Span.Mark s a b) : (h.write s).Shows b := by
  have front := shown.solid
  cases mark with
  | @put behind ahead old _ solid =>
    rcases shown.place with ⟨split, position⟩ | ⟨empty, first, position⟩
    · obtain ⟨after, cells, written⟩ := Tape.put_stored s split
      rw [← Tape.write_of_ne_blank solid] at written
      refine .of_write (by rw [position]; exact written) ?_ (.inl ⟨cells, rfl⟩)
      rw [split] at front
      rw [cells]
      exact head?_append_ne front (by simpa using solid)
    · obtain rfl : behind = [] := empty
      obtain ⟨-, rfl⟩ := List.cons.inj first
      obtain ⟨after, cells, written⟩ := h.tape.put_front s
      rw [← Tape.write_of_ne_blank solid] at written
      refine .of_write (by rw [position]; exact written) ?_ (.inl ⟨cells, rfl⟩)
      rw [cells]
      simpa using solid
  | @append behind _ solid =>
    rcases shown.place with ⟨split, position⟩ | ⟨-, first, -⟩
    · obtain ⟨after, cells, written⟩ := Tape.put_behind s (split.trans (List.append_nil _))
      rw [← Tape.write_of_ne_blank solid] at written
      refine .of_write (by rw [position]; exact written) ?_ (.inl ⟨cells, rfl⟩)
      rw [split] at front
      rw [cells]
      exact head?_append_ne front (by simpa using solid)
    · cases first
  | @eraseFirst ahead old stored next =>
    rcases shown.place with ⟨split, position⟩ | ⟨-, first, -⟩
    · obtain ⟨after, rfl, written⟩ := Tape.erase_first split next
      exact .of_write (s := .blank) (by rw [position]; exact written) next (.inr ⟨rfl, rfl, rfl⟩)
    · exact absurd (List.cons.inj first).1 stored
  | @eraseLast behind neighbour old solid =>
    rcases shown.place with ⟨split, position⟩ | ⟨empty, -, -⟩
    · obtain ⟨after, cells, written⟩ := Tape.erase_last solid split
      refine .of_write (s := .blank) (by rw [position]; exact written) ?_
        (.inl ⟨cells.trans (List.append_nil _).symm, rfl⟩)
      rw [split] at front
      rw [cells]
      rw [← List.append_nil (neighbour :: behind).reverse]
      exact head?_append_ne front (by simp)
    · cases empty

theorem Shows.mark {h : Head} {a b : Span} {w : List Symbol} (shown : h.Shows a)
    (marks : Span.Marks w a b) : (h.mark w).Shows b := by
  induction marks generalizing h with
  | keep => exact shown
  | next mark _ ih => exact ih (shown.write mark)

theorem Shows.move {h : Head} {a b : Span} {d : Direction} (shown : h.Shows a)
    (moves : Span.Moves d a b) : (h.move d).Shows b := by
  refine ⟨coherent_move h d, shown.solid, ?_⟩
  cases moves with
  | @right behind ahead s stored =>
    rcases shown.place with ⟨split, position⟩ | ⟨-, first, -⟩
    · refine .inl ⟨split.trans (by simp), ?_⟩
      change h.position + 1 = _
      rw [position]
      simp
    · exact absurd (List.cons.inj first).1 stored
  | @enter ahead =>
    rcases shown.place with ⟨split, position⟩ | ⟨-, first, position⟩
    · exact absurd (by rw [split]; rfl) shown.solid
    · obtain ⟨-, rfl⟩ := List.cons.inj first
      refine .inl ⟨rfl, ?_⟩
      change h.position + 1 = _
      rw [position]
      rfl
  | @left behind ahead inside =>
    rcases shown.place with ⟨split, position⟩ | ⟨empty, first, -⟩
    · cases behind with
      | nil =>
        refine .inr ⟨rfl, ?_, ?_⟩
        · rw [Span.leftOf]
          exact congrArg _ split.symm
        · change h.position - 1 = _
          rw [position]
          rfl
      | cons s behind =>
        refine .inl ⟨split.trans (by simp [Span.leftOf]), ?_⟩
        change h.position - 1 = _
        rw [position]
        simp [Span.leftOf]
    · obtain rfl : behind = [] := empty
      obtain rfl : ahead = _ := first
      simp at inside

end Head

end TuringMultiplier
