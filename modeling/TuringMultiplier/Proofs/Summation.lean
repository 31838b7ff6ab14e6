import TuringMultiplier.Proofs.Addition
import TuringMultiplier.Proofs.Input

/-! One advance of the addition on terms that need not come from a run: digits in any number, leading
zeros included, and in the bottom term any symbols that a pass goes over. A column refuses a bottom
symbol that is not a digit, and so does the end of the term. The carry refuses nothing: it is put down
on whatever stands in front of the last digits. -/

set_option autoImplicit false

namespace TuringMultiplier

open Layout Procedure Numeral
open TuringMultiplier.Symbol (delimiter consumed tenner endMark shift one zero)

namespace Machine

variable {m : Machine} {p q : Phase} {s : Symbol} {cells new rest : List Symbol} {n patience : Nat}

structure StartsOn (m : Machine) (p : Phase) (cells : List Symbol) : Prop where
  phase : m.phase = p
  coherent : m.head.Coherent
  position : m.head.position = 0
  cells : m.head.tape.cells.toList = cells

theorem startsOn_iff : m.StartsOn p (shift :: cells) ↔ m.Stands p ⟨[], shift :: cells⟩ := by
  constructor
  · rintro ⟨phase, coherent, position, same⟩
    refine ⟨phase, coherent, ?_, .inl ⟨same, position⟩⟩
    rw [same]
    simp
  · intro stands
    obtain ⟨-, position, same⟩ := stands.stored (by decide)
    exact ⟨stands.phase, stands.shown.coherent, position, same⟩

theorem StartsOn.advance_of_ends (starts : m.StartsOn p (shift :: cells))
    (ends : table.Ends n (entry p) ⟨[], shift :: cells⟩ q ⟨[], shift :: new⟩)
    (affords : m.head.Affords patience n) :
    ∃ after, m.advance patience = (.done q, after) ∧ after.StartsOn q (shift :: new) := by
  obtain ⟨after, advanced, stands, -⟩ :=
    Machine.advance_of_ends (startsOn_iff.mp starts) ends affords
  exact ⟨after, advanced, startsOn_iff.mpr stands⟩

theorem startsOn_ofTape (cells : List Symbol) (separator : Char) (stepLimit : Option Nat) (mode : Mode)
    (p : Phase) :
    StartsOn ⟨.ofTape ⟨cells.toArray, separator⟩ stepLimit mode, p⟩ p cells := ⟨rfl, rfl, rfl, rfl⟩

section Digits

/-- Two terms are added if the top one is not the longer one. The sum takes the place of the bottom
term, with a digit more exactly if it does not fit, and what follows is as it was. -/
theorem advance_addition (top bottom : List Bool) (rest : List Symbol) :
    ∃ moves ≤ additionCost top.length bottom.length, ∀ (m : Machine) (patience : Nat),
      m.StartsOn .addition (shift :: (row top ++ endMark :: (row bottom ++ endMark :: rest))) →
      m.head.Affords patience moves →
        (top.length ≤ bottom.length → ∃ after sum, m.advance patience = (.done .addition, after) ∧
          after.StartsOn .addition (shift :: (row sum ++ endMark :: rest)) ∧
          value sum = value top + value bottom ∧
          sum.length = bottom.length + if 2 ^ bottom.length ≤ value top + value bottom then 1 else 0) ∧
        (bottom.length < top.length → ∃ after,
          m.advance patience = (.failed .bottomTermExhausted, after) ∧ after.phase = .addition) := by
  rcases Nat.lt_or_ge bottom.length top.length with short | fits
  · have within : [] ⊆ passed := List.nil_subset _
    obtain ⟨moves, bound, refuses⟩ := @addition_refuses [] rest endMark [] .bottomTermExhausted
      top bottom within rfl (fun _ _ => rfl) short
    rw [List.length_nil, Nat.zero_add] at bound
    refine ⟨moves, bound, fun m patience starts affords => ⟨fun fits => by omega, fun _ => ?_⟩⟩
    exact advance_of_refuses (startsOn_iff.mp starts) refuses affords
  · obtain ⟨moves, bound, sum, ends, total, length⟩ := @addition_ends top bottom rest fits
    refine ⟨moves, bound, fun m patience starts affords => ⟨fun _ => ?_, fun short => by omega⟩⟩
    obtain ⟨after, advanced, ended⟩ := starts.advance_of_ends ends affords
    exact ⟨after, sum, advanced, ended, total, length⟩

/-- A carry through ones into the end mark, and a bottom term that runs out. -/
theorem advance_addition_carried :
    (∃ after sum, advance 0 ⟨.ofTape ⟨#[shift, one, one, endMark, one, one, one, endMark], 'x'⟩
          (some 100) .run, .addition⟩ = (.done .addition, after) ∧
        after.StartsOn .addition (shift :: (row sum ++ [endMark])) ∧ value sum = 10 ∧
        sum.length = 4) ∧
      ∃ after, advance 0 ⟨.ofTape ⟨#[shift, one, one, endMark, one, endMark], 'x'⟩
          (some 100) .run, .addition⟩ = (.failed .bottomTermExhausted, after) ∧
        after.phase = .addition := by
  obtain ⟨moves, bound, fits⟩ := advance_addition [true, true] [true, true, true] []
  obtain ⟨moves', bound', short⟩ := advance_addition [true, true] [true] []
  have affords : moves ≤ 100 := bound.trans (by decide)
  have affords' : moves' ≤ 100 := bound'.trans (by decide)
  constructor
  · obtain ⟨after, sum, advanced, starts, total, length⟩ :=
      (fits _ 0 (startsOn_ofTape _ 'x' (some 100) .run _) (by simpa [Head.Affords, Head.ofTape])).1
        (by decide)
    exact ⟨after, sum, advanced, starts, total, length⟩
  · exact (short _ 0 (startsOn_ofTape _ 'x' (some 100) .run _)
      (by simpa [Head.Affords, Head.ofTape])).2 (by decide)

end Digits

section Marks

variable {low sum : List Bool} {front : List Symbol}

/-- The symbols of a bottom term that are not digits are on the tape, as far from the end mark behind
the term as they stood in the term. -/
def KeepsMarks (m : Machine) (bottom rest : List Symbol) : Prop :=
  ∀ i s, bottom.reverse[i]? = some s → s.bit = none →
    m.head.tape.cells.toList.reverse[rest.length + 1 + i]? = some s

theorem StartsOn.getElem?_reverse (starts : m.StartsOn p (shift :: (new ++ endMark :: rest)))
    (i : Nat) : m.head.tape.cells.toList.reverse[rest.length + 1 + i]? =
      (new.reverse ++ [shift])[i]? := by
  rw [starts.cells]
  have behind : (shift :: (new ++ endMark :: rest)).reverse =
    (rest.reverse ++ [endMark]) ++ (new.reverse ++ [shift]) := by simp
  rw [behind, List.getElem?_append_right (by simp)]
  simp

theorem notMem_row_of_mark (mark : s.bit = none) (bits : List Bool) : s ∉ row bits := by
  intro member
  obtain ⟨b, -, rfl⟩ := List.mem_map.mp member
  simp at mark

theorem StartsOn.keepsMarks
    (starts : m.StartsOn p (shift :: (front ++ [s] ++ row sum ++ endMark :: rest)))
    (length : sum.length = low.length) : m.KeepsMarks (front ++ [s] ++ row low) rest := by
  intro i t found mark
  have above : (row low).reverse.length ≤ i := by
    by_contra inside
    rw [List.reverse_append, List.getElem?_append_left (Nat.lt_of_not_le inside)] at found
    exact notMem_row_of_mark mark low (List.mem_reverse.mp (List.mem_of_getElem? found))
  have above' : (row sum).reverse.length ≤ i := by simpa [length] using above
  rw [starts.getElem?_reverse, List.reverse_append, List.append_assoc,
    List.getElem?_append_right above']
  rw [List.reverse_append, List.getElem?_append_right above] at found
  have same : (row sum).reverse.length = (row low).reverse.length := by simp [length]
  rw [same, List.getElem?_append_left (List.getElem?_eq_some_iff.mp found).1, found]

theorem StartsOn.not_keepsMarks
    (starts : m.StartsOn p (shift :: (front ++ row sum ++ endMark :: rest)))
    (length : sum.length = low.length + 1) (mark : s.bit = none) :
    ¬ m.KeepsMarks (front ++ [s] ++ row low) rest := by
  intro kept
  have found := kept low.length s (by simp) mark
  -- A digit of the sum stands there now.
  have inside : low.length < (row sum).reverse.length := by simp [length]
  rw [starts.getElem?_reverse, List.reverse_append, List.append_assoc,
    List.getElem?_append_left inside] at found
  exact notMem_row_of_mark mark sum (List.mem_reverse.mp (List.mem_of_getElem? found))

theorem exists_last_mark {bottom : List Symbol} (foreign : ∃ s ∈ bottom, s.bit = none) :
    ∃ front s low, bottom = front ++ [s] ++ row low ∧ s.bit = none := by
  induction bottom using List.reverseRecOn with
  | nil => simp at foreign
  | append_singleton bottom t ih =>
    cases bit : t.bit with
    | none => exact ⟨bottom, t, [], by simp, bit⟩
    | some b =>
      have earlier : ∃ s ∈ bottom, s.bit = none := by
        obtain ⟨s, member, none_⟩ := foreign
        rcases List.mem_append.mp member with member | last
        · exact ⟨s, member, none_⟩
        · rw [List.mem_singleton.mp last, bit] at none_
          cases none_
      obtain ⟨front, s, low, rfl, none_⟩ := ih earlier
      refine ⟨front, s, low ++ [b], ?_, none_⟩
      simp [Symbol.bit_eq_some_iff.mp bit]

theorem refuse_of_mark (lands : s ∈ passed) (mark : s.bit = none) (carry x : Bool) :
    table (.bottomPick carry x) s = .refuse (.unexpectedSymbol s) := by
  rcases mem_passed.mp lands with rfl | rfl | rfl | rfl | rfl
  · cases mark
  · cases mark
  all_goals cases x <;> rfl

/-- The digits behind the last symbol that is none decide. If there are too few of them for the top
term, that symbol is refused. If the sum fits them, it takes their place and nothing else changes. If
it does not fit, its first one overwrites the symbol, and only then is a symbol lost. -/
theorem advance_addition_foreign (top : List Bool) (bottom rest : List Symbol)
    (within : bottom ⊆ passed) (foreign : ∃ s ∈ bottom, s.bit = none) :
    ∃ front s low, bottom = front ++ [s] ++ row low ∧ s.bit = none ∧
      ∃ moves ≤ additionCost top.length bottom.length, ∀ (m : Machine) (patience : Nat),
        m.StartsOn .addition (shift :: (row top ++ endMark :: (bottom ++ endMark :: rest))) →
        m.head.Affords patience moves →
          (low.length < top.length → ∃ after,
            m.advance patience = (.failed (.unexpectedSymbol s), after) ∧ after.phase = .addition) ∧
          (top.length ≤ low.length → ∃ after sum, m.advance patience = (.done .addition, after) ∧
            value sum = value top + value low ∧
            (value top + value low < 2 ^ low.length → sum.length = low.length ∧
              after.StartsOn .addition (shift :: (front ++ [s] ++ row sum ++ endMark :: rest))) ∧
            (2 ^ low.length ≤ value top + value low → sum.length = low.length + 1 ∧
              after.StartsOn .addition (shift :: (front ++ row sum ++ endMark :: rest)))) ∧
          ((∀ after, m.advance patience = (.done .addition, after) → after.KeepsMarks bottom rest) ↔
            (top.length ≤ low.length → value top + value low < 2 ^ low.length)) := by
  obtain ⟨front, s, low, rfl, mark⟩ := exists_last_mark foreign
  have upper : front ++ [s] ⊆ passed := (List.append_subset.mp within).1
  obtain ⟨front_within, lands⟩ := List.append_subset.mp upper
  have lands : s ∈ passed := lands (List.mem_singleton_self s)
  have stops : s ≠ one := by
    rintro rfl
    cases mark
  refine ⟨front, s, low, rfl, mark, ?_⟩
  rw [List.length_append, length_row]
  rcases Nat.lt_or_ge low.length top.length with short | fits
  · obtain ⟨moves, bound, refuses⟩ := @addition_refuses (front ++ [s]) rest s
      (front.reverse ++ [endMark]) (.unexpectedSymbol s) top low upper (by simp)
      (refuse_of_mark lands mark) short
    refine ⟨moves, bound, fun m patience starts affords => ?_⟩
    obtain ⟨after, refused, phase⟩ := advance_of_refuses (startsOn_iff.mp starts) refuses affords
    refine ⟨fun _ => ⟨after, refused, phase⟩, fun fits => by omega, ?_⟩
    refine iff_of_true (fun other advanced => ?_) fun fits => by omega
    cases refused.symm.trans advanced
  · rcases Nat.lt_or_ge (value top + value low) (2 ^ low.length) with room | full
    · obtain ⟨moves, bound, sum, ends, total, length⟩ :=
        @addition_within (front ++ [s]) rest top low upper fits room
      refine ⟨moves, bound, fun m patience starts affords => ?_⟩
      obtain ⟨after, advanced, ended⟩ := starts.advance_of_ends ends affords
      refine ⟨fun short => by omega, fun _ => ⟨after, sum, advanced, total, fun _ => ⟨length, ended⟩,
        fun full => by omega⟩, iff_of_true (fun other again => ?_) fun _ => room⟩
      cases advanced.symm.trans again
      exact ended.keepsMarks length
    · obtain ⟨moves, bound, sum, ends, total, length⟩ :=
        @addition_overwrites front rest s top low front_within lands stops fits full
      refine ⟨moves, by simpa using bound, fun m patience starts affords => ?_⟩
      obtain ⟨after, advanced, ended⟩ := starts.advance_of_ends ends affords
      refine ⟨fun short => by omega, fun _ => ⟨after, sum, advanced, total, fun room => by omega,
        fun _ => ⟨length, ended⟩⟩, iff_of_false (fun kept => ?_) fun room => ?_⟩
      · exact ended.not_keepsMarks length mark (kept after advanced)
      · exact Nat.not_lt_of_le full (room fits)

/-- A tenner where a column needs a digit. -/
theorem advance_addition_foreign_tenner :
    ∃ after, advance 0 ⟨.ofTape ⟨#[shift, one, endMark, tenner, endMark], 'x'⟩ (some 100) .run,
      .addition⟩ = (.failed (.unexpectedSymbol tenner), after) ∧ after.phase = .addition := by
  obtain ⟨front, s, low, split, -, moves, bound, reached⟩ :=
    advance_addition_foreign [true] [tenner] [] (by decide) ⟨tenner, by decide⟩
  have width : front.length + (low.length + 1) = 1 := by simpa using (congrArg List.length split).symm
  obtain rfl : front = [] := List.length_eq_zero_iff.mp (by omega)
  obtain rfl : low = [] := List.length_eq_zero_iff.mp (by omega)
  obtain ⟨rfl, -⟩ := List.cons.inj split
  have affords : moves ≤ 100 := bound.trans (by decide)
  exact (reached _ 0 (startsOn_ofTape _ 'x' (some 100) .run _)
    (by simpa [Head.Affords, Head.ofTape])).1 (by decide)

/-- Not every pass that ends well has kept the symbols that are no digits: in front of a one, the
consumed digit is overwritten by its carry. -/
theorem advance_addition_overwrites_mark :
    ¬ ∀ (top : List Bool) (bottom : List Symbol) (numbers : List (List Bool)) (m after : Machine)
        (patience : Nat), top ≠ [] → bottom ⊆ passed → (∃ s ∈ bottom, s.bit = none) →
      m.StartsOn .addition (shift :: (row top ++ endMark :: (bottom ++ endMark ::
        numbers.flatMap fun bits => row bits ++ [endMark]))) →
      m.advance patience = (.done .addition, after) →
        after.KeepsMarks bottom (numbers.flatMap fun bits => row bits ++ [endMark]) := by
  intro kept
  have starts := startsOn_ofTape [shift, one, endMark, consumed, one, endMark] 'x' (some 250) .run
    .addition
  have advanced : (advance 0 ⟨.ofTape ⟨#[shift, one, endMark, consumed, one, endMark], 'x'⟩
      (some 250) .run, .addition⟩).1 = .done .addition := by decide +kernel
  have lost : (advance 0 ⟨.ofTape ⟨#[shift, one, endMark, consumed, one, endMark], 'x'⟩
      (some 250) .run, .addition⟩).2.head.tape.cells.toList = [shift, one, zero, endMark] := by
    decide +kernel
  have found := kept [true] [consumed, one] [] _ _ 0 (by decide) (by decide) ⟨consumed, by decide⟩
    starts (Prod.ext advanced rfl) 1 consumed rfl rfl
  rw [lost] at found
  cases found

end Marks

end Machine

end TuringMultiplier
