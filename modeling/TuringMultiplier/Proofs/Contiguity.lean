import TuringMultiplier.Proofs.Acts
import TuringMultiplier.Proofs.Input
import TuringMultiplier.Proofs.Product

/-! A run from an input never leaves a gap on the tape. At every moment, also at the move that blows
the fuse, the stored cells are all occupied and the head is on one of them or next to one; a cell is
taken away only at an end of the tape, and only with the head on it. -/

set_option autoImplicit false

namespace TuringMultiplier

open Procedure

section Ends

variable {cells after : Array Symbol} {separator separator' : Char} {position place : Int}
  {s : Symbol}

theorem Tape.Writes.put_within
    (writes : Writes s ⟨cells, separator⟩ position ⟨after, separator'⟩ place) (solid : s ≠ .blank)
    (occupied : .blank ∉ cells) (low : -1 ≤ position) (high : position ≤ cells.size) :
    .blank ∉ after ∧ (-1 ≤ place ∧ place ≤ after.size) ∧
      cells.size ≤ after.size ∧ after.size ≤ cells.size + 1 := by
  cases writes with
  | eraseNone | eraseFirst | eraseLast | eraseOther => exact absurd rfl solid
  | @putLeft _ _ gap =>
    obtain rfl : gap = 0 := by omega
    rw [size_gap_append]
    exact ⟨by simp [solid.symm, occupied], by omega⟩
  | @replace _ _ n _ _ inside =>
    rw [Array.size_setIfInBounds]
    refine ⟨fun blank => ?_, by omega⟩
    rcases Array.mem_or_eq_of_mem_setIfInBounds blank with old | new
    · exact occupied old
    · exact solid new.symm
  | @putRight _ _ gap =>
    obtain rfl : gap = 0 := by omega
    rw [size_append_gap]
    exact ⟨by simp [solid.symm, occupied], by omega⟩

theorem Tape.Writes.erase_end
    (writes : Writes .blank ⟨cells, separator⟩ position ⟨after, separator'⟩ place)
    (occupied : .blank ∉ cells) (low : 0 ≤ position) (high : position < cells.size)
    (ends : position = 0 ∨ position + 1 = cells.size) :
    .blank ∉ after ∧ (-1 ≤ place ∧ place ≤ after.size) ∧ after.size + 1 = cells.size := by
  cases writes with
  | putLeft solid | replace solid | putRight solid => exact absurd rfl solid
  | eraseNone => exact absurd high (Int.not_lt.mpr low)
  | eraseOther => omega
  | @eraseFirst first n =>
    obtain ⟨-, rfl, kept⟩ : ¬ .blank = first ∧ n = 0 ∧ .blank ∉ after := by simpa using occupied
    rw [size_gap_append] at ends ⊢
    exact ⟨kept, by omega⟩
  | @eraseLast _ n last =>
    obtain ⟨kept, rfl, -⟩ : .blank ∉ after ∧ n = 0 ∧ ¬ .blank = last := by simpa using occupied
    rw [size_append_gap]
    exact ⟨kept, by omega⟩

end Ends

namespace Head

variable {h : Head} {a : Act} {s : Symbol} {b c : Span} {w : List Symbol} {d : Direction}

structure Compact (h : Head) : Prop where
  solid : .blank ∉ h.tape.cells
  low : -1 ≤ h.position
  high : h.position ≤ h.tape.length

/-- The acts that need no padding and erase no cell but the one under the head, which has to be the
first or the last. -/
def Permits (h : Head) : Act → Prop
  | .write s =>
    if s = .blank then
      0 ≤ h.position ∧ h.position < h.tape.length ∧
        (h.position = 0 ∨ h.position + 1 = h.tape.length)
    else -1 ≤ h.position ∧ h.position ≤ h.tape.length
  | .move d => -1 ≤ h.position + d.offset ∧ h.position + d.offset ≤ h.tape.length
  | .change .. => True

section Steps

theorem permits_put_iff (solid : s ≠ .blank) :
    h.Permits (.write s) ↔ -1 ≤ h.position ∧ h.position ≤ h.tape.length := by
  simp [Permits, solid]

theorem permits_erase_iff : h.Permits (.write .blank) ↔
    0 ≤ h.position ∧ h.position < h.tape.length ∧
      (h.position = 0 ∨ h.position + 1 = h.tape.length) := by
  simp [Permits]

theorem Compact.permits_write (compact : h.Compact) (solid : s ≠ .blank) :
    h.Permits (.write s) :=
  (permits_put_iff solid).mpr ⟨compact.low, compact.high⟩

theorem Compact.put (compact : h.Compact) (solid : s ≠ .blank) :
    (h.write s).Compact ∧ h.tape.length ≤ (h.write s).tape.length ∧
      (h.write s).tape.length ≤ h.tape.length + 1 := by
  obtain ⟨occupied, ⟨low, high⟩, sizes⟩ := (h.tape.writes_write h.position s).put_within solid
    compact.solid compact.low compact.high
  exact ⟨⟨occupied, low, high⟩, sizes⟩

theorem Compact.erase (compact : h.Compact) (permitted : h.Permits (.write .blank)) :
    (h.write .blank).Compact ∧ (h.write .blank).tape.length + 1 = h.tape.length := by
  obtain ⟨low, high, ends⟩ := permits_erase_iff.mp permitted
  obtain ⟨occupied, ⟨low, high⟩, size⟩ :=
    (h.tape.writes_write h.position .blank).erase_end compact.solid low high ends
  exact ⟨⟨occupied, low, high⟩, size⟩

theorem Compact.act (compact : h.Compact) (permitted : h.Permits a) : (h.act a).Compact := by
  cases a with
  | write s =>
    by_cases blank : s = .blank
    · subst blank
      exact (compact.erase permitted).1
    · exact (compact.put blank).1
  | move d => exact ⟨compact.solid, permitted.1, permitted.2⟩
  | change => exact ⟨compact.solid, compact.low, compact.high⟩

theorem Compact.length_act (compact : h.Compact) (permitted : h.Permits a) :
    (h.act a).tape.length ≤ h.tape.length + 1 ∧ h.tape.length ≤ (h.act a).tape.length + 1 := by
  cases a with
  | write s =>
    by_cases blank : s = .blank
    · subst blank
      have shorter := (compact.erase permitted).2
      dsimp only [Head.act]
      omega
    · obtain ⟨-, least, most⟩ := compact.put blank
      dsimp only [Head.act]
      omega
  | move | change => exact ⟨Nat.le_succ _, Nat.le_succ _⟩

def Tidy : Head → List Act → Prop
  | _, [] => True
  | h, a :: acts => h.Permits a ∧ Tidy (h.act a) acts

theorem tidy_append {acts more : List Act} :
    h.Tidy (acts ++ more) ↔ h.Tidy acts ∧ (h.replay acts).Tidy more := by
  induction acts generalizing h with
  | nil => simp [Tidy]
  | cons a acts ih => rw [List.cons_append, Tidy, ih, Tidy, and_assoc, replay_cons]

theorem Compact.replay {acts : List Act} (compact : h.Compact) (tidy : h.Tidy acts) :
    (h.replay acts).Compact := by
  induction acts generalizing h with
  | nil => exact compact
  | cons a acts ih => exact ih (compact.act tidy.1) tidy.2

end Steps

section Spans

theorem Shows.within (shown : h.Shows b) : -1 ≤ h.position ∧ h.position ≤ h.tape.length := by
  rcases shown.place with ⟨split, position⟩ | ⟨-, -, position⟩
  · rw [position, Tape.length, ← Array.length_toList, split]
    simp
  · rw [position]
    omega

theorem Shows.permits_write (shown : h.Shows b) (mark : Span.Mark s b c) :
    h.Permits (.write s) := by
  have within := shown.within
  cases mark with
  | put solid | append solid => exact (permits_put_iff solid).mpr within
  | @eraseFirst ahead old stored =>
    rcases shown.place with ⟨split, position⟩ | ⟨-, front, -⟩
    · have length : h.tape.length = ahead.length + 1 := by
        rw [Tape.length, ← Array.length_toList, split]
        simp
      refine permits_erase_iff.mpr ?_
      rw [position, length]
      simp
    · exact absurd (List.cons.inj front).1 stored
  | @eraseLast behind neighbour =>
    rcases shown.place with ⟨split, position⟩ | ⟨empty, -, -⟩
    · have length : h.tape.length = behind.length + 2 := by
        rw [Tape.length, ← Array.length_toList, split]
        simp
      refine permits_erase_iff.mpr ?_
      rw [position, length]
      simp
      omega
    · cases empty

theorem Shows.tidy_mark (shown : h.Shows b) (marks : Span.Marks w b c) :
    h.Tidy (Act.ofMark w) := by
  induction marks generalizing h with
  | keep => trivial
  | next mark _ ih => exact ⟨shown.permits_write mark, ih (shown.write mark)⟩

theorem Shows.permits_move (shown : h.Shows b) (moves : Span.Moves d b c) : h.Permits (.move d) :=
  (shown.move moves).within

end Spans

end Head

section Print

variable {separator : Char} {s : Symbol} {t : Tape} {h : Head} {i : Int}

theorem Symbol.glyph_ne_headGlyph (free : isReserved separator = false) (s : Symbol) :
    s.glyph separator ≠ headGlyph := by
  by_cases chosen : s = delimiter
  · subst chosen
    rintro rfl
    exact absurd free (by decide)
  · intro same
    have fixed := ofFixedGlyph_glyph separator chosen
    rw [same] at fixed
    cases fixed

theorem Symbol.glyph_ne_blank (free : isReserved separator = false) (solid : s ≠ .blank) :
    s.glyph separator ≠ '-' := by
  by_cases chosen : s = delimiter
  · subst chosen
    rintro rfl
    exact absurd free (by decide)
  · intro same
    have fixed := ofFixedGlyph_glyph separator chosen
    rw [same] at fixed
    exact solid (Option.some.inj fixed).symm

theorem Tape.read_mem (low : 0 ≤ i) (high : i < t.length) : t.read i ∈ t.cells := by
  obtain ⟨n, rfl⟩ := Int.eq_ofNat_of_zero_le low
  have inside : n < t.cells.size := by
    rw [length] at high
    omega
  have stored : t.read (n : Int) = t.cells[n] := by
    change t.cells.getD n .blank = _
    simp [inside]
  rw [stored]
  exact Array.getElem_mem inside

theorem Tape.mem_window {start : Int} {count : Nat} {c : Char} (member : c ∈ t.window start count) :
    ∃ i, start ≤ i ∧ i < start + count ∧ c = (t.read i).glyph t.separator := by
  obtain ⟨k, less, rfl⟩ := List.mem_map.mp member
  rw [List.mem_range] at less
  exact ⟨start + k, by omega, by omega, rfl⟩

theorem Tape.window_succ (t : Tape) (start : Int) (count : Nat) :
    t.window start (count + 1) = (t.read start).glyph t.separator :: t.window (start + 1) count := by
  simp [window, List.range_succ_eq_map, Int.add_assoc, Int.add_comm 1]

theorem Tape.toList_render (t : Tape) (position : Int) :
    (t.render position).toList = t.window (min position 0) (position - min position 0).toNat ++
      Symbol.headGlyph :: (t.read position).glyph t.separator ::
        t.window (position + 1) (max position ((t.length : Int) - 1) - position).toNat := by
  have width : (max position ((t.length : Int) - 1) - position + 1).toNat =
      (max position ((t.length : Int) - 1) - position).toNat + 1 := by omega
  rw [render, String.toList_ofList, width, window_succ]

/-- The mark of the head stands once in the print, and only the cell right behind it can be blank. -/
theorem Head.Compact.render (compact : h.Compact)
    (free : Symbol.isReserved h.tape.separator = false) :
    ∃ before under after, h.render.toList = before ++ Symbol.headGlyph :: under :: after ∧
      (∀ c ∈ before ++ after, c ≠ '-') ∧ ∀ c ∈ before ++ under :: after, c ≠ Symbol.headGlyph := by
  have low := compact.low
  have high := compact.high
  have marked {start : Int} {count : Nat} {c : Char} (member : c ∈ h.tape.window start count) :
      c ≠ Symbol.headGlyph := by
    obtain ⟨i, -, -, rfl⟩ := Tape.mem_window member
    exact Symbol.glyph_ne_headGlyph free _
  have printed {start : Int} {count : Nat} {c : Char}
      (inside : ∀ i, start ≤ i → i < start + count → 0 ≤ i ∧ i < h.tape.length)
      (member : c ∈ h.tape.window start count) : c ≠ '-' := by
    obtain ⟨i, least, less, rfl⟩ := Tape.mem_window member
    obtain ⟨first, last⟩ := inside i least less
    apply Symbol.glyph_ne_blank free
    intro blank
    exact compact.solid (blank ▸ Tape.read_mem first last)
  refine ⟨_, _, _, h.tape.toList_render h.position, ?_, ?_⟩
  · intro c member
    rcases List.mem_append.mp member with before | after
    · exact printed (by omega) before
    · exact printed (by omega) after
  · intro c member
    rcases List.mem_append.mp member with before | member
    · exact marked before
    · rcases List.mem_cons.mp member with rfl | after
      · exact Symbol.glyph_ne_headGlyph free _
      · exact marked after

end Print

namespace Control

variable {σ ρ : Type} {control : Control σ ρ} {q : σ} {a b : Span} {h : Head} {count : Nat}
  {result : ρ}

theorem Ends.tidy (ends : control.Ends count q a result b) (shown : h.Shows a) (turns : Nat) :
    h.Tidy (control.acts turns q h) := by
  obtain ⟨path, last, mark⟩ := ends
  induction path generalizing h turns with
  | nil =>
    cases turns with
    | zero => trivial
    | succ turns =>
      rw [acts_finish (shown.symbol ▸ last)]
      exact shown.tidy_mark mark
  | @cons _ _ _ _ w d _ _ _ _ turn marks moves _ ih =>
    cases turns with
    | zero => trivial
    | succ turns =>
      have turn := shown.symbol ▸ turn
      have written := shown.tidy_mark marks
      have marked := shown.mark marks
      have moved := marked.permits_move moves
      cases fuse : ((h.mark w).move d).fuse with
      | some fault =>
        rw [acts_blown turn fuse, Head.tidy_append, Head.replay_ofMark]
        exact ⟨written, moved, trivial⟩
      | none =>
        rw [acts_go turn fuse, Head.tidy_append, Head.replay_ofMark]
        exact ⟨written, moved, ih (marked.move moves) turns last mark⟩

end Control

namespace Machine

variable {m : Machine} {p q : Phase} {a b : Span} {n patience : Nat}

theorem tidy_of_ends (stands : m.Stands p a) (ends : table.Ends n (entry p) a q b) (patience : Nat) :
    m.head.Tidy (m.advanceActs patience) := by
  have driven : m.head.Tidy (m.drivenActs patience) := by
    rw [drivenActs, stands.phase]
    exact ends.tidy stands.shown _
  unfold advanceActs
  split
  · exact Head.tidy_append.mpr ⟨driven, trivial, trivial⟩
  · exact driven
  · exact driven

theorem stands_of_advance (stands : m.Stands p a) (ends : table.Ends n (entry p) a q b)
    {r : Phase} {after : Machine} (advanced : m.advance patience = (.done r, after)) :
    r = q ∧ after.Stands q b := by
  have answered := outcome_advance m patience
  rw [advanced] at answered
  rw [driven, stands.phase] at answered
  obtain ⟨rfl, shown⟩ := Control.drive_done ends stands.shown answered.symm
  obtain ⟨-, journal, head⟩ := advance_eq m patience
  rw [driven, stands.phase, advanced] at head
  refine ⟨rfl, phase_of_advance advanced, ?_⟩
  rw [head]
  exact ⟨shown.coherent, shown.solid, shown.place⟩

theorem tidy_of_course {k : Nat} (course : Course k n p a .done b) (stands : m.Stands p a)
    (patience count : Nat) : m.head.Tidy (m.actsUpTo patience count) := by
  generalize finish : Phase.done = r at course
  induction course generalizing m count with
  | nil =>
    subst finish
    cases count with
    | zero => trivial
    | succ count =>
      rw [actsUpTo, if_pos stands.phase]
      trivial
  | cons live ends _ ih =>
    cases count with
    | zero => trivial
    | succ count =>
      rw [actsUpTo, if_neg (stands.phase ▸ live), Head.tidy_append, ← head_replay,
        replay_advanceActs]
      refine ⟨tidy_of_ends stands ends patience, ?_⟩
      rcases advanced : m.advance patience with ⟨r | fault | _, after⟩
      · exact ih (stands_of_advance stands ends advanced).2 count finish
      · trivial
      · trivial

section Inputs

variable {text : String} {config : Config} {fresh : Machine}

theorem tidy_of_ofInput (built : ofInput text config = .ok fresh) (patience : Nat) :
    fresh.head.Compact ∧ fresh.head.Tidy (fresh.acts patience) := by
  obtain ⟨first, second, nonempty, nonempty', -, -, -, stands, -⟩ := inputText_of_ofInput built
  obtain ⟨advances, moves, -, course⟩ := product_course nonempty nonempty'
  obtain ⟨low, high⟩ := stands.shown.within
  refine ⟨⟨?_, low, high⟩, tidy_of_course course stands patience _⟩
  intro blank
  rw [← Array.mem_toList_iff] at blank
  rcases stands.shown.place with ⟨cells, -⟩ | ⟨-, front, -⟩
  · have within : Layout.row first ++ .delimiter :: Layout.row second ⊆
        [Symbol.zero, .one, .delimiter] := by simp
    rw [cells] at blank
    exact absurd (within blank) (by decide)
  · obtain ⟨b, low, rfl⟩ := List.exists_cons_of_ne_nil nonempty
    cases b <;> cases front

/-- At every moment of a run from an input the tape has no gap and the head is within one cell of it.
A blank is written on the first or the last cell only, any other symbol on the tape or next to it, and
there any other could be written at any time. A printed tape shows a blank under the head or nowhere. -/
theorem acts_contiguous (built : ofInput text config = .ok fresh) (patience : Nat) :
    fresh.replay (fresh.acts patience) = (fresh.calculate patience).2 ∧
      (∀ done a rest, fresh.acts patience = done ++ a :: rest →
        (fresh.replay done).head.Permits a ∧ (fresh.replay (done ++ [a])).head.Compact ∧
          (fresh.replay (done ++ [a])).head.tape.length ≤
            (fresh.replay done).head.tape.length + 1 ∧
          (fresh.replay done).head.tape.length ≤
            (fresh.replay (done ++ [a])).head.tape.length + 1 ∧
          ∀ s ≠ .blank, (fresh.replay done).head.Permits (.write s) ∧
            ((fresh.replay done).head.write s).Compact) ∧
      ∀ tape steps position,
        .moved tape steps position ∈ (fresh.calculate patience).2.head.journal.entries →
          ∃ before under after, tape.toList = before ++ Symbol.headGlyph :: under :: after ∧
            (∀ c ∈ before ++ after, c ≠ '-') ∧
            ∀ c ∈ before ++ under :: after, c ≠ Symbol.headGlyph := by
  have replayed := replay_acts fresh patience
  obtain ⟨compact, tidy⟩ := tidy_of_ofInput built patience
  refine ⟨replayed, ?_, ?_⟩
  · intro done a rest same
    rw [same, Head.tidy_append] at tidy
    obtain ⟨before, permitted, -⟩ := tidy
    have compact := compact.replay before
    rw [replay_append, replay_cons, replay_nil, head_act, head_replay]
    obtain ⟨longest, shortest⟩ := compact.length_act permitted
    exact ⟨permitted, compact.act permitted, longest, shortest, fun s solid =>
      ⟨compact.permits_write solid, (compact.put solid).1⟩⟩
  · intro tape steps position member
    obtain ⟨-, -, -, -, -, free, empty, -, separator⟩ := inputText_of_ofInput built
    rw [← replayed, head_replay, ← Array.mem_toList_iff, Head.entries_replay, empty,
      Array.toList_empty, List.nil_append] at member
    obtain ⟨done, d, rest, same, event⟩ := Head.mem_notes_move member rfl
    cases event
    rw [same, Head.tidy_append] at tidy
    obtain ⟨before, permitted, -⟩ := tidy
    have kept : ((fresh.head.replay done).move d).tape.separator = config.separator :=
      (fresh.head.separator_replay done).trans separator
    exact ((compact.replay before).act permitted).render (kept ▸ free)

theorem acts_contiguous_three_times_two : ∃ fresh,
    ofInput "11x10" { mode := .step, stepLimit := some 40 } = .ok fresh ∧
      fresh.replay (fresh.acts 0) = (fresh.calculate 0).2 ∧
      ∀ done a rest, fresh.acts 0 = done ++ a :: rest →
        (fresh.replay (done ++ [a])).head.Compact := by
  obtain ⟨fresh, built, -⟩ := @ofInput_inputText [true, true] [true, false]
    { mode := .step, stepLimit := some 40 } (by decide) (by decide) (by decide)
  obtain ⟨replayed, moments, -⟩ := acts_contiguous built 0
  exact ⟨fresh, built, replayed, fun done a rest same => (moments done a rest same).2.1⟩

end Inputs

end Machine

end TuringMultiplier
