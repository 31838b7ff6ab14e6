import TuringMultiplier.Acceptance
import TuringMultiplier.Proofs.Backtracking
import TuringMultiplier.Proofs.Input

/-! The search that an engine makes for an input finds the inputs and nothing else. The separator
stands for itself, and it may be a digit or a character that means something in a pattern. So what an
engine accepts is what a machine is built for, if its separator is no letter of the tape. -/

set_option autoImplicit false

namespace TuringMultiplier

variable {text : List Char} {separator : Char}

namespace Pattern

def number : Part := .many (.oneOf ['0', '1'])

def input (separator : Char) : Pattern :=
  [.start, number, .once (.literal separator), number, .stop]

theorem written_input (escape : String → String) (separator : Char) :
    (input separator).written escape =
      "^[01]+" ++ escape (String.singleton separator) ++ "[01]+$" := by
  apply String.toList_inj.mp
  simp [input, number, written, Part.written, Atom.written]

theorem plain_input (separator : Char) : (input separator).Plain := by
  have digits : number.Plain := ⟨by decide, by decide, by simp⟩
  simp only [Plain, input, List.forall_mem_cons]
  exact ⟨trivial, digits, trivial, digits, trivial, nofun⟩

theorem admits_digit (c : Char) : (Atom.oneOf ['0', '1']).admits c = Numeral.isDigit c := by
  unfold Numeral.isDigit Numeral.ofDigitChar
  split <;> simp_all [Atom.admits]

theorem number_matches_iff {before after : List Char} :
    number.Matches before text after ↔ IsNumeral text := by
  simp only [number, Part.Matches, admits_digit, IsNumeral]

theorem occurs_input_iff : (input separator).Occurs text ↔ Accepted separator text := by
  constructor
  · rintro ⟨before, _, rfl, _, _, rfl, ⟨rfl, rfl⟩, first, _, rfl, numeral, _, _, rfl, ⟨c, rfl, same⟩,
      second, _, rfl, numeral', _, _, rfl, ⟨rfl, rfl⟩, -⟩
    obtain rfl : c = separator := by simpa [Atom.admits] using same
    exact ⟨first, second, by simp, number_matches_iff.mp numeral, number_matches_iff.mp numeral'⟩
  · rintro ⟨first, second, rfl, numeral, numeral'⟩
    exact ⟨[], _, rfl, [], _, rfl, ⟨rfl, rfl⟩, first, _, rfl, number_matches_iff.mpr numeral,
      [separator], _, rfl, ⟨separator, rfl, by simp [Atom.admits]⟩, second, [], by simp,
      number_matches_iff.mpr numeral', [], [], rfl, ⟨rfl, rfl⟩, trivial⟩

end Pattern

namespace Engine

variable {e : Engine}

theorem inputSearch_eq (standard : e.Standard) (separator : Char) :
    ∃ search, e.inputSearch separator = some search ∧
      ∀ text, search text = accepts separator text.toList := by
  have plain := Pattern.plain_input separator
  obtain ⟨search, compiled⟩ := Option.isSome_iff_exists.mp
    (standard.compiles _ plain (show 5 ≤ 8 by decide))
  refine ⟨search, ?_, fun text => ?_⟩
  · rw [inputSearch, ← Pattern.written_input, compiled]
  · rw [Bool.eq_iff_iff, standard.finds _ plain search compiled, Pattern.occurs_input_iff, accepts_iff]

theorem isAcceptedWith_eq (standard : e.Standard) (text : String) (separator : Char) :
    e.isAcceptedWith text separator = accepts separator text.toList := by
  obtain ⟨search, built, found⟩ := inputSearch_eq standard separator
  unfold isAcceptedWith isAccepted
  split
  · next default =>
    rw [← default, built]
    exact found text
  · rw [built]
    exact found text

theorem isAcceptedWith_eq_isInput (standard : e.Standard) : e.isAcceptedWith = isInput := by
  funext text separator
  exact isAcceptedWith_eq standard text separator

theorem ofInput_eq (e : Engine) (standard : e.Standard) (input : String) (config : Machine.Config) :
    e.ofInput input config = Machine.ofInput input config := by
  rw [ofInput, isAcceptedWith_eq_isInput standard, Machine.ofInput]

/-- A text is accepted if and only if it is an input: digits, the separator, and digits. -/
theorem isAcceptedWith_iff (standard : e.Standard) (text : String) (separator : Char) :
    (e.isAcceptedWith text separator = true ↔ ∃ first second : String,
      text = first ++ String.singleton separator ++ second ∧
        IsNumeral first.toList ∧ IsNumeral second.toList) ∧
    e.isAccepted text = e.isAcceptedWith text 'x' ∧
    e.isAcceptedWith text separator = accepts separator text.toList := by
  refine ⟨?_, (if_pos rfl).symm, isAcceptedWith_eq standard text separator⟩
  rw [isAcceptedWith_eq standard, accepts_iff]
  constructor
  · rintro ⟨first, second, split, numeral, numeral'⟩
    refine ⟨String.ofList first, String.ofList second, ?_, by simpa, by simpa⟩
    apply String.toList_inj.mp
    simpa using split
  · rintro ⟨first, second, rfl, numeral, numeral'⟩
    exact ⟨first.toList, second.toList, by simp, numeral, numeral'⟩

/-- A dot stands for a dot only, and of three zeros the one in the middle may separate the others. -/
theorem isAcceptedWith_iff_dot :
    Pattern.backtracking.Standard ∧ Pattern.backtracking.isAcceptedWith "10.11" '.' = true ∧
      Pattern.backtracking.isAcceptedWith "10011" '.' = false ∧
      Pattern.backtracking.isAcceptedWith "000" '0' = true := by
  have standard := Pattern.backtracking_standard
  have numeral {text : List Char} (some_digit : text ≠ []) (digits : text.all Numeral.isDigit) :
      IsNumeral text := ⟨some_digit, List.all_eq_true.mp digits⟩
  refine ⟨standard, ?_, ?_, ?_⟩
  · exact (isAcceptedWith_iff standard "10.11" '.').1.mpr
      ⟨"10", "11", by decide, numeral (by decide) rfl, numeral (by decide) rfl⟩
  · rw [(isAcceptedWith_iff standard "10011" '.').2.2]
    simp [accepts, acceptsAfterDigit, Numeral.isDigit, Numeral.ofDigitChar]
  · exact (isAcceptedWith_iff standard "000" '0').1.mpr
      ⟨"0", "0", by decide, numeral (by decide) rfl, numeral (by decide) rfl⟩

end Engine

namespace Machine

/-- A separator is refused whatever the input, and any other input than two numerals around the
separator is refused next, whichever engine is asked. No input is refused for a third reason, or laid
on the tape with a character less. -/
theorem ofInput_gate (text : String) (config : Config) :
    (∀ e : Engine, e.Standard → e.ofInput text config = ofInput text config) ∧
      (ofInput text config = .error (.reservedDelimiter config.separator) ↔
        config.separator ∈ ['0', '1', '-', 'd', 'y', 'z', 's', 'a', 'b', 'Q']) ∧
      (ofInput text config = .error (.rejected text config.separator) ↔
        config.separator ∉ ['0', '1', '-', 'd', 'y', 'z', 's', 'a', 'b', 'Q'] ∧
          ¬ Accepted config.separator text.toList) ∧
      ((∃ m, ofInput text config = .ok m ∧ m.phase = .zeroCheck ∧ m.steps = 0 ∧
          m.content = text ∧ m.head.position = 0 ∧ m.render = "Q" ++ text) ↔
        config.separator ∉ ['0', '1', '-', 'd', 'y', 'z', 's', 'a', 'b', 'Q'] ∧
          Accepted config.separator text.toList) ∧
      (Symbol.isReserved config.separator = false → accepts config.separator text.toList →
        ∃ tape, Tape.ofText text config.separator = .ok tape ∧ tape.content = text ∧
          tape.length = text.length) := by
  refine ⟨fun e standard => e.ofInput_eq standard text config, ?_⟩
  rw [← Symbol.isReserved_iff, ← accepts_iff]
  cases reserved : Symbol.isReserved config.separator with
  | true => simp [ofInput_of_reserved reserved]
  | false =>
    cases accepted : accepts config.separator text.toList with
    | false => simp [ofInput_of_refused reserved accepted]
    | true =>
      obtain ⟨tape, laid, content, length, render, built⟩ := ofInput_of_accepted reserved accepted
      simp [built, laid, length, Machine.content, Machine.steps, Machine.render, Head.render,
        Head.ofTape, content, render]

/-- Blanks around a number and a letter of the tape as the separator. -/
theorem ofInput_gate_refusals :
    (Pattern.backtracking.Standard ∧
        Pattern.backtracking.ofInput "1y1" { separator := 'y' } = .error (.reservedDelimiter 'y') ∧
        ofInput "-1*1" { separator := '*' } = .error (.rejected "-1*1" '*') ∧
        ∃ m, ofInput "01*10" { separator := '*' } = .ok m ∧ m.content = "01*10") ∧
      ∃ tape, Tape.ofText "01*10" '*' = .ok tape ∧ tape.length = 5 := by
  have standard := Pattern.backtracking_standard
  obtain ⟨engine, reserved, -, -, -⟩ := ofInput_gate "1y1" { separator := 'y' }
  obtain ⟨-, -, rejected, -, -⟩ := ofInput_gate "-1*1" { separator := '*' }
  obtain ⟨-, -, -, built, laid⟩ := ofInput_gate "01*10" { separator := '*' }
  have accepted : accepts '*' "01*10".toList :=
    accepts_inputText_iff.mpr ⟨[false, true], [true, false], by decide, by decide, rfl⟩
  have refused : accepts '*' "-1*1".toList = false := by decide
  have malformed : ¬ Accepted '*' "-1*1".toList := by
    rw [← accepts_iff, refused]
    exact Bool.false_ne_true
  obtain ⟨m, built, -, -, content, -⟩ := built.mpr ⟨by decide, accepts_iff.mp accepted⟩
  obtain ⟨tape, laid, -, length⟩ := laid (by decide) accepted
  exact ⟨⟨standard, (engine _ standard).trans (reserved.mpr (by decide)),
    rejected.mpr ⟨by decide, malformed⟩, m, built, content⟩, tape, laid, length⟩

end Machine

end TuringMultiplier
