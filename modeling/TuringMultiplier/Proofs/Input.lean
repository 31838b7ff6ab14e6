import TuringMultiplier.Proofs.Course
import TuringMultiplier.Proofs.Opening

/-! From the text of an input to a fresh machine, and from the tape of a finished machine to text. -/

set_option autoImplicit false

namespace TuringMultiplier

def inputText (first second : List Bool) (separator : Char) : String :=
  String.ofList (first.map Numeral.digitChar ++ separator :: second.map Numeral.digitChar)

theorem Numeral.isDigit_iff {c : Char} : Numeral.isDigit c ↔ ∃ b, c = Numeral.digitChar b := by
  constructor
  · intro digit
    unfold Numeral.isDigit Numeral.ofDigitChar at digit
    split at digit
    · exact ⟨false, rfl⟩
    · exact ⟨true, rfl⟩
    · cases digit
  · rintro ⟨b, rfl⟩
    simp [Numeral.isDigit]

theorem isNumeral_iff {text : List Char} :
    IsNumeral text ↔ ∃ bits : List Bool, bits ≠ [] ∧ text = bits.map Numeral.digitChar := by
  have digits : (∀ c ∈ text, Numeral.isDigit c) ↔
      ∃ bits : List Bool, text = bits.map Numeral.digitChar := by
    induction text with
    | nil => simp
    | cons c rest ih =>
      rw [List.forall_mem_cons, Numeral.isDigit_iff, ih]
      constructor
      · rintro ⟨⟨b, rfl⟩, bits, rfl⟩
        exact ⟨b :: bits, rfl⟩
      · rintro ⟨bits, same⟩
        cases bits with
        | nil => cases same
        | cons b bits =>
          obtain ⟨rfl, rfl⟩ := List.cons.inj same
          exact ⟨⟨b, rfl⟩, bits, rfl⟩
  rw [IsNumeral, digits]
  constructor
  · rintro ⟨nonempty, bits, rfl⟩
    exact ⟨bits, by simpa using nonempty, rfl⟩
  · rintro ⟨bits, nonempty, rfl⟩
    exact ⟨by simpa using nonempty, bits, rfl⟩

theorem accepts_inputText_iff {separator : Char} {text : String} :
    accepts separator text.toList ↔ ∃ first second : List Bool,
      first ≠ [] ∧ second ≠ [] ∧ text = inputText first second separator := by
  rw [accepts_iff, Accepted]
  constructor
  · rintro ⟨left, right, split, numeral, numeral'⟩
    obtain ⟨first, nonempty, rfl⟩ := isNumeral_iff.mp numeral
    obtain ⟨second, nonempty', rfl⟩ := isNumeral_iff.mp numeral'
    refine ⟨first, second, nonempty, nonempty', ?_⟩
    rw [inputText, ← split, String.ofList_toList]
  · rintro ⟨first, second, nonempty, nonempty', rfl⟩
    exact ⟨_, _, String.toList_ofList, isNumeral_iff.mpr ⟨first, nonempty, rfl⟩,
      isNumeral_iff.mpr ⟨second, nonempty', rfl⟩⟩

theorem separator_notMem {separator : Char} (free : Symbol.isReserved separator = false)
    (bits : List Bool) : separator ∉ bits.map Numeral.digitChar := by
  intro member
  obtain ⟨b, -, digit⟩ := List.mem_map.mp member
  rw [← digit] at free
  cases b <;> cases free

/-- A separator of its own stands in one place only, so the two numerals can be told. -/
theorem inputText_inj {separator : Char} (free : Symbol.isReserved separator = false)
    {first second first' second' : List Bool} :
    inputText first second separator = inputText first' second' separator ↔
      first = first' ∧ second = second' := by
  have injective : Function.Injective Numeral.digitChar := by
    intro b c same
    exact Option.some.inj (by rw [← Numeral.ofDigitChar_digitChar, same, Numeral.ofDigitChar_digitChar])
  constructor
  · intro same
    obtain ⟨left, -, right⟩ := (List.append_cons_inj_of_notMem (separator_notMem free first)
      (separator_notMem free second)).mp (String.ofList_injective same)
    exact ⟨injective.list_map left, injective.list_map right⟩
  · rintro ⟨rfl, rfl⟩
    rfl

namespace Symbol

theorem isReserved_iff {c : Char} :
    isReserved c ↔ c ∈ ['0', '1', '-', 'd', 'y', 'z', 's', 'a', 'b', 'Q'] := by
  unfold isReserved ofFixedGlyph headGlyph
  split
  all_goals simp_all

theorem glyph_digit (separator : Char) (b : Bool) :
    (digit b).glyph separator = Numeral.digitChar b := by
  cases b <;> rfl

theorem map_glyph_row (separator : Char) (bits : List Bool) :
    (Layout.row bits).map (glyph separator) = bits.map Numeral.digitChar := by
  rw [Layout.row, List.map_map]
  exact List.map_congr_left fun b _ => glyph_digit separator b

theorem map_glyph_terms (separator : Char) (second : List Bool) (places : List Nat) :
    (Layout.terms second places).map (glyph separator) = places.flatMap fun place =>
      second.map Numeral.digitChar ++ List.replicate place 's' ++ ['y'] := by
  simp [Layout.terms, List.map_flatMap, map_glyph_row, glyph]

theorem map_glyph_summands (separator : Char) (second : List Bool) (places : List Nat) :
    (Layout.summands second places).map (glyph separator) = places.flatMap fun place =>
      second.map Numeral.digitChar ++ List.replicate place '0' ++ ['y'] := by
  simp [Layout.summands, Layout.shifted, List.map_flatMap, map_glyph_row, glyph]

theorem isNone_ofFixedGlyph {separator : Char} (free : isReserved separator = false) :
    (ofFixedGlyph separator).isNone := by
  simp only [isReserved, Bool.or_eq_false_iff] at free
  simpa using free.2

theorem mapM_ofGlyph_glyph {separator : Char} (free : (ofFixedGlyph separator).isNone)
    (cells : List Symbol) :
    (cells.map (glyph separator)).mapM (ofGlyph separator) = some cells := by
  induction cells with
  | nil => rfl
  | cons s cells ih => simp [ofGlyph_glyph free, ih]

end Symbol

namespace Tape

theorem trim_eq_self {cells : List Symbol} (front : cells.head? ≠ some .blank)
    (back : cells.reverse.head? ≠ some .blank) : trim cells = cells := by
  have dropFront {row : List Symbol} (solid : row.head? ≠ some .blank) :
      row.dropWhile isBlank = row := by
    cases row with
    | nil => rfl
    | cons s row =>
      have : s ≠ .blank := by simpa using solid
      simp [isBlank, this]
  rw [trim, dropFront front, dropFront back, List.reverse_reverse]

def ofFactors (first second : List Bool) (separator : Char) : Tape :=
  ⟨(Layout.row first ++ .delimiter :: Layout.row second).toArray, separator⟩

theorem content_ofFactors (first second : List Bool) (separator : Char) :
    (ofFactors first second separator).content = inputText first second separator := by
  rw [content, ofFactors, List.toList_toArray, List.map_append, List.map_cons,
    Symbol.map_glyph_row, Symbol.map_glyph_row]
  rfl

theorem ofText_inputText {first second : List Bool} {separator : Char}
    (free : Symbol.isReserved separator = false) :
    ofText (inputText first second separator) separator = .ok (ofFactors first second separator) ∧
      (Layout.row first ++ .delimiter :: Layout.row second).head? ≠ some .blank := by
  have glyphs : (inputText first second separator).toList =
      (Layout.row first ++ .delimiter :: Layout.row second).map (Symbol.glyph separator) := by
    rw [← content_ofFactors, content, ofFactors, String.toList_ofList]
  have front : (Layout.row first ++ .delimiter :: Layout.row second).head? ≠ some .blank :=
    Layout.head?_ne_blank (show _ ⊆ [.zero, .one] by simp) (by decide) (by simp)
  have back : (Layout.row first ++ .delimiter :: Layout.row second).reverse.head? ≠ some .blank := by
    rw [List.reverse_append, List.reverse_cons, List.append_assoc]
    exact Layout.head?_ne_blank (show _ ⊆ [.zero, .one] by simp) (by decide) (by simp)
  rw [ofText, glyphs, Symbol.mapM_ofGlyph_glyph (Symbol.isNone_ofFixedGlyph free)]
  simp only [trim_eq_self front back]
  exact ⟨rfl, front⟩

theorem window_zero (t : Tape) :
    t.window 0 t.length = t.cells.toList.map (Symbol.glyph t.separator) := by
  apply List.ext_getElem
  · simp [window, length]
  · intro i bound bound'
    have inside : i < t.cells.size := by simpa using bound'
    have stored : t.read (i : Int) = t.cells[i] := by
      change t.cells.getD i .blank = _
      simp [inside]
    simp [window, stored]

theorem render_zero {t : Tape} (nonempty : 0 < t.length) : t.render 0 = "Q" ++ t.content := by
  have last : max 0 ((t.length : Int) - 1) = t.length - 1 := by omega
  have width : ((t.length : Int) - 1 - 0 + 1).toNat = t.length := by omega
  simp only [render, last, width, min_self, Int.sub_self, content, window_zero]
  apply String.toList_inj.mp
  simp [window, Symbol.headGlyph]

end Tape

namespace Machine

open Layout Procedure

variable {first second : List Bool} {config : Config}

def Config.Allows (config : Config) (patience moves : Nat) : Prop :=
  match config.stepLimit with
  | some limit => moves ≤ limit
  | none => moves < patience

theorem Config.Allows.affords {m : Machine} {patience few many : Nat}
    (allows : config.Allows patience many) (le : few ≤ many) (fresh : m.head.steps = 0)
    (stepLimit : m.head.stepLimit = config.stepLimit) : m.head.Affords patience few := by
  unfold Allows at allows
  rw [Head.Affords, stepLimit, fresh]
  revert allows
  cases config.stepLimit <;> dsimp only <;> omega

theorem ofInput_eq_ok_iff {text : String} {m : Machine} : ofInput text config = .ok m ↔
    Symbol.isReserved config.separator = false ∧ accepts config.separator text.toList ∧
      ∃ tape, Tape.ofText text config.separator = .ok tape ∧
        m = ⟨.ofTape tape config.stepLimit config.mode, .zeroCheck⟩ := by
  cases reserved : Symbol.isReserved config.separator with
  | true =>
    simp [ofInput, ofChecked, reserved]
    nofun
  | false =>
    cases accepted : accepts config.separator text.toList with
    | false =>
      simp [ofInput, ofChecked, isInput, reserved, accepted]
      nofun
    | true =>
      cases laid : Tape.ofText text config.separator with
      | error fault => simp [ofInput, ofChecked, isInput, reserved, accepted, Head.ofText, laid]
      | ok tape => simp [ofInput, ofChecked, isInput, reserved, accepted, Head.ofText, laid, eq_comm]

theorem ofInput_inputText (nonempty : first ≠ []) (nonempty' : second ≠ [])
    (free : Symbol.isReserved config.separator = false) :
    ∃ m, ofInput (inputText first second config.separator) config = .ok m ∧
      m.Stands .zeroCheck (atStart first second) ∧ m.head.steps = 0 ∧
      m.head.stepLimit = config.stepLimit ∧ m.head.tape.separator = config.separator := by
  have accepted : accepts config.separator (inputText first second config.separator).toList :=
    accepts_inputText_iff.mpr ⟨first, second, nonempty, nonempty', rfl⟩
  obtain ⟨laid, front⟩ := @Tape.ofText_inputText first second _ free
  refine ⟨⟨.ofTape (.ofFactors first second config.separator) config.stepLimit config.mode,
    .zeroCheck⟩, ?_, ⟨rfl, rfl, front, .inl ⟨rfl, rfl⟩⟩, rfl, rfl, rfl⟩
  exact ofInput_eq_ok_iff.mpr ⟨free, accepted, _, laid, rfl⟩

theorem inputText_of_ofInput {text : String} {m : Machine} (built : ofInput text config = .ok m) :
    ∃ first second, first ≠ [] ∧ second ≠ [] ∧ text = inputText first second config.separator ∧
      Symbol.isReserved config.separator = false ∧ m.head.journal.entries = #[] ∧
        m.Stands .zeroCheck (atStart first second) ∧ m.head.tape.separator = config.separator := by
  obtain ⟨free, accepted, tape, -, rfl⟩ := ofInput_eq_ok_iff.mp built
  obtain ⟨first, second, nonempty, nonempty', rfl⟩ := accepts_inputText_iff.mp accepted
  obtain ⟨m, same, stands, -, -, separator⟩ := ofInput_inputText nonempty nonempty' free
  cases built.symm.trans same
  exact ⟨first, second, nonempty, nonempty', rfl, free, rfl, stands, separator⟩

theorem Stands.stored {m : Machine} {p : Phase} {behind ahead : List Symbol} {s : Symbol}
    (stands : m.Stands p ⟨behind, s :: ahead⟩) (solid : s ≠ .blank) :
    m.head.symbol = s ∧ m.head.position = behind.length ∧
      m.head.tape.cells.toList = behind.reverse ++ s :: ahead := by
  refine ⟨stands.shown.symbol, ?_⟩
  rcases stands.shown.place with ⟨cells, position⟩ | ⟨-, front, -⟩
  · exact ⟨position, cells⟩
  · exact absurd (List.cons.inj front).1 solid

theorem Stands.content {m : Machine} {p : Phase} {bits : List Bool} (nonempty : bits ≠ [])
    (stands : m.Stands p ⟨[], row bits⟩) :
    m.content = String.ofList (bits.map Numeral.digitChar) ∧
      m.render = "Q" ++ String.ofList (bits.map Numeral.digitChar) := by
  rcases stands.shown.place with ⟨cells, position⟩ | ⟨-, front, -⟩
  · have written : m.content = String.ofList (bits.map Numeral.digitChar) := by
      rw [Machine.content, Tape.content, cells]
      exact congrArg String.ofList (Symbol.map_glyph_row _ bits)
    have long : 0 < m.head.tape.length := by
      rw [Tape.length, ← Array.length_toList, cells]
      simpa [List.length_pos_iff] using nonempty
    refine ⟨written, ?_⟩
    rw [render, Head.render, position, ← written]
    exact Tape.render_zero long
  · obtain ⟨b, low, rfl⟩ := List.exists_cons_of_ne_nil nonempty
    cases b <;> cases front

section Gate

variable {text : String}

theorem ofInput_of_reserved (reserved : Symbol.isReserved config.separator) (text : String) :
    ofInput text config = .error (.reservedDelimiter config.separator) := by
  simp [ofInput, ofChecked, reserved]
  rfl

theorem ofInput_of_refused (free : Symbol.isReserved config.separator = false)
    (refused : accepts config.separator text.toList = false) :
    ofInput text config = .error (.rejected text config.separator) := by
  simp [ofInput, ofChecked, isInput, free, refused]
  rfl

theorem ofInput_of_accepted (free : Symbol.isReserved config.separator = false)
    (accepted : accepts config.separator text.toList) :
    ∃ tape, Tape.ofText text config.separator = .ok tape ∧ tape.content = text ∧
      tape.length = text.length ∧ tape.render 0 = "Q" ++ text ∧
      ofInput text config = .ok ⟨.ofTape tape config.stepLimit config.mode, .zeroCheck⟩ := by
  obtain ⟨first, second, -, -, rfl⟩ := accepts_inputText_iff.mp accepted
  obtain ⟨laid, -⟩ := @Tape.ofText_inputText first second _ free
  have content := Tape.content_ofFactors first second config.separator
  have long : 0 < (Tape.ofFactors first second config.separator).length := by
    simp [Tape.length, Tape.ofFactors]
  refine ⟨_, laid, content, ?_, ?_, ofInput_eq_ok_iff.mpr ⟨free, accepted, _, laid, rfl⟩⟩
  · simp [Tape.length, Tape.ofFactors, inputText]
    omega
  · rw [Tape.render_zero long, content]

end Gate

end Machine

end TuringMultiplier
