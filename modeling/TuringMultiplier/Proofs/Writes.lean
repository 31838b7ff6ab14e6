import TuringMultiplier.Tape
import Mathlib.Data.List.Basic

/-! What a write does to a tape, on its cells or off them. Read from the written cell, which the write
tells where to find, the tape is the one before with that cell replaced; only a blank written in front
of the cells takes the first of them away as well. No end of the cells becomes a blank, unless a
symbol is written on an empty tape with a gap in between. -/

set_option autoImplicit false

namespace TuringMultiplier.Tape

variable {text : String} {separator : Char} {t u : Tape} {position place : Int} {s : Symbol}
  {marks : List (Int × Symbol)}

section Reads

theorem read_eq (t : Tape) (i : Int) :
    t.read i = if 0 ≤ i then t.cells[i.toNat]?.getD .blank else .blank := by
  cases i <;> simp [read]

theorem read_of_neg {i : Int} (before : i < 0) : t.read i = .blank := by
  rw [read_eq, if_neg (by omega)]

theorem read_of_size_le {i : Int} (behind : t.cells.size ≤ i) : t.read i = .blank := by
  rw [read_eq]
  grind

theorem read_blanks (n : Nat) (i : Int) :
    read ⟨Array.replicate n Symbol.blank, separator⟩ i = .blank := by
  simp only [read_eq, Array.getElem?_replicate]
  grind

theorem read_singleton (s : Symbol) (i : Int) :
    read ⟨#[s], separator⟩ i = if i = 0 then s else .blank := by
  rcases i with (_ | n) | n <;> rfl

theorem read_append (front cells : Array Symbol) (i : Int) :
    read ⟨front ++ cells, separator⟩ i =
      if i < front.size then read ⟨front, separator⟩ i
      else read ⟨cells, separator⟩ (i - front.size) := by
  simp only [read_eq, Array.getElem?_append]
  grind

theorem read_push (cells : Array Symbol) (s : Symbol) (i : Int) :
    read ⟨cells.push s, separator⟩ i =
      if i = cells.size then s else read ⟨cells, separator⟩ i := by
  simp only [read_eq, Array.getElem?_push]
  grind

theorem read_setIfInBounds (cells : Array Symbol) (n : Nat) (s : Symbol) (i : Int) :
    read ⟨cells.setIfInBounds n s, separator⟩ i =
      if i = n ∧ n < cells.size then s else read ⟨cells, separator⟩ i := by
  simp only [read_eq, Array.getElem?_setIfInBounds]
  grind

theorem read_gap_append (s : Symbol) (n : Nat) (cells : Array Symbol) (i : Int) :
    read ⟨#[s] ++ Array.replicate n Symbol.blank ++ cells, separator⟩ i =
      if i = 0 then s else read ⟨cells, separator⟩ (i - (n + 1)) := by
  simp only [read_append, read_blanks, read_singleton, Array.size_append, Array.size_replicate,
    List.size_toArray, List.length_singleton]
  grind [read_of_neg]

theorem size_gap_append (s : Symbol) (n : Nat) (cells : Array Symbol) :
    (#[s] ++ Array.replicate n Symbol.blank ++ cells).size = n + 1 + cells.size := by
  simp
  omega

theorem read_append_gap (cells : Array Symbol) (n : Nat) (s : Symbol) (i : Int) :
    read ⟨(cells ++ Array.replicate n Symbol.blank).push s, separator⟩ i =
      if i = (cells.size + n : Nat) then s else read ⟨cells, separator⟩ i := by
  simp only [read_push, read_append, read_blanks, Array.size_append, Array.size_replicate]
  grind [read_of_size_le]

theorem size_append_gap (cells : Array Symbol) (n : Nat) (s : Symbol) :
    ((cells ++ Array.replicate n Symbol.blank).push s).size = cells.size + n + 1 := by
  simp [Nat.add_assoc]

end Reads

section Blanks

theorem exists_blanks (row : List Symbol) : ∃ (n : Nat) (rest : List Symbol),
    row = List.replicate n .blank ++ rest ∧ rest.head? ≠ some .blank ∧
      row.dropWhile isBlank = rest := by
  induction row with
  | nil => exact ⟨0, [], rfl, nofun, rfl⟩
  | cons first row ih =>
    by_cases blank : first = .blank
    · obtain ⟨n, rest, split, solid, dropped⟩ := ih
      refine ⟨n + 1, rest, ?_, solid, ?_⟩
      · rw [split, blank, List.replicate_succ, List.cons_append]
      · simpa [blank, isBlank] using dropped
    · exact ⟨0, first :: row, rfl, by simpa using blank, by simp [isBlank, blank]⟩

theorem skipBlanks_eq {cells : Array Symbol} {i stop : Nat} (le : i ≤ stop)
    (blanks : ∀ j, i ≤ j → j < stop → cells[j]? = some .blank)
    (solid : cells[stop]? ≠ some .blank) : skipBlanks cells i = stop := by
  fun_induction skipBlanks cells i with
  | case1 i inside blank ih =>
    have other : i ≠ stop := by
      rintro rfl
      exact solid (by rw [Array.getElem?_eq_getElem inside, blank])
    exact ih (by omega) fun j least less => blanks j (by omega) less
  | case2 i inside solid' =>
    by_contra other
    have blank := blanks i (Nat.le_refl i) (by omega)
    rw [Array.getElem?_eq_getElem inside] at blank
    exact solid' (Option.some.inj blank)
  | case3 i out =>
    by_contra other
    have blank := blanks i (Nat.le_refl i) (by omega)
    rw [Array.getElem?_eq_none (by omega)] at blank
    cases blank

theorem frontRun_eq (first : Symbol) (n : Nat) {rest : Array Symbol}
    (solid : rest[0]? ≠ some .blank) :
    frontRun (#[first] ++ Array.replicate n Symbol.blank ++ rest) = n + 1 := by
  have stop : skipBlanks (#[first] ++ Array.replicate n Symbol.blank ++ rest) 1 = n + 1 := by
    apply skipBlanks_eq (Nat.le_add_left 1 n)
    · intro j least less
      have behind : j - 1 < n := by omega
      simp [Array.getElem?_append, Nat.not_lt.mpr least, behind]
    · simpa [Array.getElem?_append, Nat.add_comm 1] using solid
  rw [frontRun, stop]
  simp
  omega

end Blanks

section Relation

inductive Writes : Symbol → Tape → Int → Tape → Int → Prop where
  | eraseNone {separator : Char} {position : Int} (front : position ≤ 0) :
      Writes .blank ⟨#[], separator⟩ position ⟨#[], separator⟩ position
  /-- Left of the tape and on its first cell a blank takes that cell, and the blanks behind it. -/
  | eraseFirst {first : Symbol} {n : Nat} {rest : Array Symbol} {separator : Char} {position : Int}
      (front : position ≤ 0) (solid : rest[0]? ≠ some .blank) :
      Writes .blank ⟨#[first] ++ Array.replicate n Symbol.blank ++ rest, separator⟩ position
        ⟨rest, separator⟩ (position - (n + 1))
  /-- On the last cell a blank takes that cell, and the blanks in front of it. -/
  | eraseLast {kept : Array Symbol} {n : Nat} {last : Symbol} {separator : Char}
      (inside : 0 < kept.size + n) (solid : kept.back? ≠ some .blank) :
      Writes .blank ⟨(kept ++ Array.replicate n Symbol.blank).push last, separator⟩
        (kept.size + n : Nat) ⟨kept, separator⟩ (kept.size + n : Nat)
  | eraseOther {cells : Array Symbol} {n : Nat} {separator : Char} (inside : 0 < n)
      (other : n + 1 ≠ cells.size) :
      Writes .blank ⟨cells, separator⟩ n ⟨cells.setIfInBounds n .blank, separator⟩ n
  | putLeft {s : Symbol} {cells : Array Symbol} {gap : Nat} {separator : Char} (solid : s ≠ .blank) :
      Writes s ⟨cells, separator⟩ (-(gap + 1))
        ⟨#[s] ++ Array.replicate gap Symbol.blank ++ cells, separator⟩ 0
  | replace {s : Symbol} {cells : Array Symbol} {n : Nat} {separator : Char} (solid : s ≠ .blank)
      (inside : n < cells.size) :
      Writes s ⟨cells, separator⟩ n ⟨cells.setIfInBounds n s, separator⟩ n
  | putRight {s : Symbol} {cells : Array Symbol} {gap : Nat} {separator : Char}
      (solid : s ≠ .blank) :
      Writes s ⟨cells, separator⟩ (cells.size + gap : Nat)
        ⟨(cells ++ Array.replicate gap Symbol.blank).push s, separator⟩ (cells.size + gap : Nat)

theorem writes_erase_front {cells : Array Symbol} (front : position ≤ 0) :
    Writes .blank ⟨cells, separator⟩ position
      (erase ⟨cells, separator⟩ position).1 (erase ⟨cells, separator⟩ position).2 := by
  rw [erase, if_pos front]
  obtain ⟨_ | ⟨first, row⟩⟩ := cells
  · simpa [frontRun] using Writes.eraseNone front
  · obtain ⟨n, rest, rfl, solid, -⟩ := exists_blanks row
    have split : (⟨first :: (List.replicate n .blank ++ rest)⟩ : Array Symbol) =
        #[first] ++ Array.replicate n Symbol.blank ++ rest.toArray := by simp
    have solid : rest.toArray[0]? ≠ some .blank := by simpa [List.head?_eq_getElem?] using solid
    rw [split, frontRun_eq first n solid]
    have left : (#[first] ++ Array.replicate n Symbol.blank ++ rest.toArray).extract (n + 1)
        (#[first] ++ Array.replicate n Symbol.blank ++ rest.toArray).size = rest.toArray := by
      simp [Array.extract_append, Nat.add_comm 1]
    dsimp only
    rw [left]
    exact .eraseFirst front solid

theorem writes_erase_back {cells : Array Symbol} (inside : 0 < position)
    (last : position = (cells.size : Int) - 1) :
    Writes .blank ⟨cells, separator⟩ position
      (erase ⟨cells, separator⟩ position).1 (erase ⟨cells, separator⟩ position).2 := by
  rw [erase, if_neg (Int.not_le.mpr inside), if_pos last]
  obtain ⟨front, final, rfl⟩ := Array.eq_push_of_size_ne_zero (show cells.size ≠ 0 by omega)
  obtain ⟨n, rest, split, solid, dropped⟩ := exists_blanks front.toList.reverse
  have cut : front = rest.reverse.toArray ++ Array.replicate n Symbol.blank := by
    apply Array.toList_inj.mp
    rw [List.reverse_eq_iff.mp split]
    simp
  have kept : front.popWhile isBlank = rest.reverse.toArray := by
    rw [← @Array.toArray_toList _ front, List.popWhile_toArray, dropped]
  have solid : rest.reverse.toArray.back? ≠ some .blank := by simpa using solid
  have place : position = (rest.reverse.toArray.size + n : Nat) := by
    rw [last, cut]
    simp
    omega
  dsimp only
  rw [Array.pop_push, kept, place, cut]
  exact .eraseLast (by omega) solid

theorem writes_write (t : Tape) (position : Int) (s : Symbol) :
    Writes s t position (t.write position s).1 (t.write position s).2 := by
  obtain ⟨cells, separator⟩ := t
  unfold write
  split
  · next blank =>
    subst blank
    by_cases front : position ≤ 0
    · exact writes_erase_front front
    · by_cases last : position = (cells.size : Int) - 1
      · exact writes_erase_back (Int.not_le.mp front) last
      · obtain ⟨n, rfl⟩ := Int.eq_ofNat_of_zero_le (show 0 ≤ position by omega)
        rw [erase, if_neg front, if_neg last]
        exact .eraseOther (by omega) (by omega)
  · next solid =>
    cases position with
    | negSucc gap => exact .putLeft solid
    | ofNat n =>
      by_cases inside : n < cells.size
      · rw [put, if_pos inside]
        exact .replace solid inside
      · rw [put, if_neg inside]
        obtain ⟨gap, rfl⟩ := Nat.exists_eq_add_of_le (Nat.le_of_not_lt inside)
        rw [Nat.add_sub_cancel_left]
        exact .putRight solid

theorem Writes.separator_eq (writes : Writes s t position u place) : u.separator = t.separator := by
  cases writes <;> rfl

theorem Writes.read (writes : Writes s t position u place) (i : Int) :
    u.read (i + (place - position)) =
      if i = position then s
      else if s = .blank ∧ position < 0 ∧ i = 0 then .blank
      else t.read i := by
  cases writes with
  | eraseNone =>
    simp only [read_eq]
    grind
  | eraseFirst =>
    rw [read_gap_append]
    grind [read_of_neg]
  | eraseLast =>
    rw [read_append_gap]
    grind [read_of_size_le]
  | eraseOther | replace =>
    rw [read_setIfInBounds]
    grind [read_of_size_le]
  | putLeft =>
    rw [read_gap_append]
    grind [read_of_neg]
  | putRight =>
    rw [read_append_gap]
    grind

end Relation

section Ends

/-- A symbol that is written on an empty tape, but neither on its first cell nor in front of it. The
gap is filled with blanks, although there is nothing on its other side. -/
def Detached (t : Tape) (position : Int) (s : Symbol) : Prop :=
  t.isEmpty ∧ s ≠ .blank ∧ position ≠ 0 ∧ position ≠ -1

instance (t : Tape) (position : Int) (s : Symbol) : Decidable (t.Detached position s) :=
  inferInstanceAs (Decidable (_ ∧ _))

def Anchored (t : Tape) : Prop := t.cells[0]? ≠ some .blank ∨ t.cells.back? ≠ some .blank

theorem front_iff : t.cells[0]? ≠ some .blank ↔ (0 < t.cells.size → t.read 0 ≠ .blank) := by
  cases size : t.cells.size with
  | zero => simp [Array.size_eq_zero_iff.mp size]
  | succ n =>
    have stored : t.cells[0]? = some (t.read 0) := by simp [read_eq, size]
    simp [stored]

theorem back_iff : t.cells.back? ≠ some .blank ↔
    (0 < t.cells.size → t.read ((t.cells.size : Int) - 1) ≠ .blank) := by
  rw [Array.back?_eq_getElem?]
  cases size : t.cells.size with
  | zero => simp [Array.size_eq_zero_iff.mp size]
  | succ n =>
    have stored : t.cells[n]? = some (t.read n) := by simp [read_eq, size]
    simp [stored]

/-- Both ends stay free of blanks, unless a symbol is written away from an empty tape. Then the gap
makes one of them blank. -/
theorem Writes.trimmed_iff (writes : Writes s t position u place) (trimmed : t.Trimmed) :
    u.Trimmed ↔ ¬ t.Detached position s := by
  -- Said of what is read at the two ends, the rest is arithmetic in each case. What an erasure keeps
  -- ends in no blank of its own accord, and its other end was one before.
  rw [Trimmed, front_iff, back_iff] at trimmed ⊢
  rw [Detached, isEmpty, Array.isEmpty_iff_size_eq_zero]
  cases writes with
  | eraseNone => simp
  | @eraseFirst _ _ rest separator _ _ solid =>
    have solid := (@front_iff ⟨rest, separator⟩).mp solid
    simp only [read_gap_append, size_gap_append] at trimmed
    grind
  | @eraseLast kept _ _ separator _ solid =>
    have solid := (@back_iff ⟨kept, separator⟩).mp solid
    simp only [read_append_gap, size_append_gap] at trimmed
    grind
  | eraseOther | replace =>
    simp only [read_setIfInBounds, Array.size_setIfInBounds] at trimmed ⊢
    grind
  | putLeft =>
    simp only [read_gap_append, size_gap_append]
    grind [read_of_neg]
  | putRight =>
    simp only [read_append_gap, size_append_gap]
    grind [read_of_size_le]

theorem Writes.anchored (writes : Writes s t position u place) (anchored : t.Anchored) :
    u.Anchored := by
  -- Unlike `Trimmed` this needs nothing of the other end, so that a blank left by an earlier write
  -- does no harm.
  rw [Anchored, front_iff, back_iff] at anchored ⊢
  cases writes with
  | eraseNone => exact anchored
  | @eraseFirst _ _ rest separator _ _ solid => exact .inl ((@front_iff ⟨rest, separator⟩).mp solid)
  | @eraseLast kept _ _ separator _ solid => exact .inr ((@back_iff ⟨kept, separator⟩).mp solid)
  | eraseOther | replace =>
    simp only [read_setIfInBounds, Array.size_setIfInBounds]
    grind
  | putLeft solid =>
    simp only [read_gap_append, size_gap_append]
    grind
  | putRight solid =>
    simp only [read_append_gap, size_append_gap]
    grind

end Ends

section Sequences

def writeAll (t : Tape) (marks : List (Int × Symbol)) : Tape :=
  marks.foldl (fun t mark => (t.write mark.1 mark.2).1) t

theorem trimmed_ofText (laid : ofText text separator = .ok t) : t.Trimmed := by
  unfold ofText at laid
  split at laid
  · next row _ =>
    cases laid
    obtain ⟨-, front, -, head, dropped⟩ := exists_blanks row
    obtain ⟨n, back, split, last, dropped'⟩ := exists_blanks front.reverse
    rw [trim, dropped, dropped']
    refine ⟨?_, by simpa using last⟩
    rw [List.reverse_eq_iff.mp split, List.reverse_append, List.head?_append] at head
    intro blank
    rw [List.getElem?_toArray, ← List.head?_eq_getElem?] at blank
    rw [blank, Option.some_or] at head
    exact head rfl
  · cases laid

theorem Trimmed.writeAll (trimmed : t.Trimmed)
    (attached : ∀ earlier position s later, marks = earlier ++ (position, s) :: later →
      ¬ (t.writeAll earlier).Detached position s) : (t.writeAll marks).Trimmed := by
  induction marks generalizing t with
  | nil => exact trimmed
  | cons mark marks ih =>
    obtain ⟨position, s⟩ := mark
    have attached' := attached [] position s marks rfl
    refine ih (((t.writes_write position s).trimmed_iff trimmed).mpr attached') ?_
    intro earlier position' s' later split
    exact attached ((position, s) :: earlier) position' s' later (congrArg _ split)

theorem Anchored.writeAll (anchored : t.Anchored) (marks : List (Int × Symbol)) :
    (t.writeAll marks).Anchored := by
  induction marks generalizing t with
  | nil => exact anchored
  | cons mark marks ih => exact ih ((t.writes_write mark.1 mark.2).anchored anchored)

end Sequences

/-- Seen from the written cell, a write changes that cell only, wherever it is and however the cells
are numbered before and behind it. A blank in front of the tape is written nowhere; it takes away the
first cell instead. -/
theorem read_write (t : Tape) (position : Int) (s : Symbol) (i : Int) :
    (t.write position s).1.read (i + ((t.write position s).2 - position)) =
      if i = position then s
      else if s = .blank ∧ position < 0 ∧ i = 0 then .blank
      else t.read i :=
  (t.writes_write position s).read i

/-- The ends of the tape are free of blanks all along, for as long as nothing is written away from an
empty tape, and no longer. Never are both of them blank. -/
theorem trimmed_writeAll (laid : ofText text separator = .ok t) (marks : List (Int × Symbol)) :
    ((∀ earlier later, marks = earlier ++ later → (t.writeAll earlier).Trimmed) ↔
      ∀ earlier position s later, marks = earlier ++ (position, s) :: later →
        ¬ (t.writeAll earlier).Detached position s) ∧
    (t.writeAll marks).Anchored := by
  have trimmed := trimmed_ofText laid
  refine ⟨⟨?_, ?_⟩, Anchored.writeAll (.inl trimmed.1) marks⟩
  · intro always earlier position s later split
    have before := always earlier _ split
    have behind := always (earlier ++ [(position, s)]) later (by simpa using split)
    rw [writeAll, List.foldl_append] at behind
    exact ((writes_write _ position s).trimmed_iff before).mp behind
  · intro attached earlier later split
    apply trimmed.writeAll
    intro first position s rest split'
    exact attached first position s (rest ++ later) (by simp [split, split'])

theorem trimmed_writeAll_emptied : ∃ t, ofText "1x" 'x' = .ok t ∧
    (t.writeAll [(0, .blank), (-5, .blank), (-1, .one)]).Trimmed := by
  have laid : ofText "1x" 'x' = .ok ⟨#[.one, .delimiter], 'x'⟩ := by rfl
  obtain ⟨always, -⟩ := trimmed_writeAll laid [(0, .blank), (-5, .blank), (-1, .one)]
  -- The three writes, one after the other.
  refine ⟨_, laid, always.mpr ?_ _ [] (List.append_nil _).symm⟩
  intro earlier position s later split
  rcases earlier with _ | ⟨first, _ | ⟨second, _ | ⟨third, rest⟩⟩⟩
  · cases split
    decide
  · cases split
    decide +kernel
  · cases split
    decide +kernel
  · simp at split

theorem writeAll_leaves_blank_end : ¬ ∀ (text : String) (separator : Char) (t : Tape),
    ofText text separator = .ok t → ∀ marks, (t.writeAll marks).Trimmed := by
  intro always
  have trimmed := always "" 'x' ⟨#[], 'x'⟩ rfl [(-2, .one)]
  exact trimmed.2 (by decide)

end TuringMultiplier.Tape
