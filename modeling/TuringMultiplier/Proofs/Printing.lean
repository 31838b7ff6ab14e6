import TuringMultiplier.Proofs.Contiguity
import TuringMultiplier.Proofs.Writes
import Mathlib.Data.List.DropRight

/-! Tapes in print. A text is laid out and printed again with nothing lost but the blanks at its ends,
and a tape is printed and laid out again as it was. In a line of a trace the head's mark stands in the
print, which may be wider than the tape; tape and head can be told from the line all the same. -/

set_option autoImplicit false

namespace TuringMultiplier

namespace Symbol

variable {separator c : Char} {chars : List Char} {row : List Symbol}

def fixedGlyphs : List Char := ['0', '1', '-', 'd', 'y', 'z', 's', 'a', 'b']

theorem isSome_ofFixedGlyph_iff : (ofFixedGlyph c).isSome ↔ c ∈ fixedGlyphs := by
  unfold ofFixedGlyph fixedGlyphs
  split
  all_goals simp_all

theorem isSome_ofGlyph_iff : (ofGlyph separator c).isSome ↔ c = separator ∨ c ∈ fixedGlyphs := by
  by_cases same : c = separator
  · simp [ofGlyph, same]
  · rw [ofGlyph, if_neg same, isSome_ofFixedGlyph_iff, or_iff_right same]

theorem glyphs_of_mapM (laid : chars.mapM (ofGlyph separator) = some row) :
    row.map (glyph separator) = chars ∧ ∀ s ∈ row, ofGlyph separator (s.glyph separator) = some s := by
  induction chars generalizing row with
  | nil =>
    cases laid
    exact ⟨rfl, nofun⟩
  | cons c chars ih =>
    rw [List.mapM_cons] at laid
    obtain ⟨s, first, laid⟩ := Option.bind_eq_some_iff.mp laid
    obtain ⟨rest, others, laid⟩ := Option.bind_eq_some_iff.mp laid
    cases laid
    obtain ⟨glyphs, reads⟩ := ih others
    have glyph := glyph_of_ofGlyph first
    exact ⟨by rw [List.map_cons, glyph, glyphs],
      List.forall_mem_cons.mpr ⟨by rw [glyph, first], reads⟩⟩

theorem isSome_mapM_iff : (chars.mapM (ofGlyph separator)).isSome ↔
    ∀ c ∈ chars, c = separator ∨ c ∈ fixedGlyphs := by
  induction chars with
  | nil => simp
  | cons c chars ih =>
    rw [List.forall_mem_cons, ← ih, ← isSome_ofGlyph_iff, List.mapM_cons]
    cases ofGlyph separator c <;> cases chars.mapM (ofGlyph separator) <;> simp

theorem isBlank_eq_comp (other : separator ≠ '-') :
    Tape.isBlank = (fun c => decide (c = '-')) ∘ glyph separator := by
  funext s
  cases s <;> simp [Tape.isBlank, glyph, other]

end Symbol

namespace Tape

variable {text : String} {separator : Char} {t u : Tape} {row row' : List Char}

section Strip

def strip (row : List Char) : List Char := (row.dropWhile (· = '-')).rdropWhile (· = '-')

theorem map_glyph_trim (other : separator ≠ '-') (cells : List Symbol) :
    (trim cells).map (Symbol.glyph separator) = strip (cells.map (Symbol.glyph separator)) := by
  rw [strip, List.rdropWhile, trim, List.dropWhile_map, ← List.map_reverse, List.dropWhile_map,
    ← List.map_reverse, Symbol.isBlank_eq_comp other]

structure Bare (row : List Char) : Prop where
  nonempty : row ≠ []
  front : row.head? ≠ some '-'
  back : row.getLast? ≠ some '-'

def padded (left : Nat) (row : List Char) (right : Nat) : List Char :=
  List.replicate left '-' ++ (row ++ List.replicate right '-')

theorem dropWhile_blanks (front : row.head? ≠ some '-') (n : Nat) :
    (List.replicate n '-' ++ row).dropWhile (· = '-') = row := by
  rw [List.dropWhile_append_of_pos (by simp)]
  cases row with
  | nil => rfl
  | cons c row => exact List.dropWhile_cons_of_neg (by simpa using front)

theorem Bare.dropWhile_padded (bare : Bare row) (left right : Nat) :
    (padded left row right).dropWhile (· = '-') = row ++ List.replicate right '-' := by
  apply dropWhile_blanks
  rw [List.head?_append_of_ne_nil _ bare.nonempty]
  exact bare.front

theorem Bare.strip_padded (bare : Bare row) (left right : Nat) :
    strip (padded left row right) = row := by
  have back : row.reverse.head? ≠ some '-' := by
    rw [List.head?_reverse]
    exact bare.back
  rw [strip, bare.dropWhile_padded, List.rdropWhile, List.reverse_append, List.reverse_replicate,
    dropWhile_blanks back, List.reverse_reverse]

/-- The blanks around a bare row can be counted. -/
theorem Bare.padded_inj {left right left' right' : Nat} (bare : Bare row) (bare' : Bare row')
    (same : padded left row right = padded left' row' right') : row = row' ∧ left = left' := by
  have rows : row = row' := by
    rw [← bare.strip_padded left right, same, bare'.strip_padded]
  have behind : row ++ List.replicate right '-' = row' ++ List.replicate right' '-' := by
    rw [← bare.dropWhile_padded left, same, bare'.dropWhile_padded]
  refine ⟨rows, ?_⟩
  rw [padded, padded, behind] at same
  simpa using congrArg List.length same

end Strip

section Content

theorem trimmed_iff : t.Trimmed ↔
    t.cells.toList.head? ≠ some .blank ∧ t.cells.toList.getLast? ≠ some .blank := by
  rw [Trimmed, List.head?_eq_getElem?, Array.getElem?_toList, Array.getLast?_toList]

theorem Trimmed.ofText_content (trimmed : t.Trimmed)
    (free : (Symbol.ofFixedGlyph t.separator).isNone) :
    ofText t.content t.separator = .ok t := by
  obtain ⟨front, back⟩ := trimmed_iff.mp trimmed
  rw [ofText, content, String.toList_ofList, Symbol.mapM_ofGlyph_glyph free]
  dsimp only
  rw [trim_eq_self front (by rwa [List.head?_reverse])]

/-- Of a text only the blanks at its ends are lost. If the separator prints as the blank does, every
one of them is a delimiter and stays. -/
theorem content_trim {row : List Symbol}
    (laid : text.toList.mapM (Symbol.ofGlyph separator) = some row) :
    content ⟨(trim row).toArray, separator⟩ =
      if separator = '-' then text else String.ofList (strip text.toList) := by
  obtain ⟨glyphs, reads⟩ := Symbol.glyphs_of_mapM laid
  rw [content]
  split
  · next same =>
    have solid : .blank ∉ row := by
      intro blank
      have delimiter := reads _ blank
      rw [same] at delimiter
      cases delimiter
    rw [trim_eq_self (fun front => solid (List.mem_of_head? front)) fun back =>
      solid (List.mem_reverse.mp (List.mem_of_head? back)), glyphs, String.ofList_toList]
  · next other => rw [map_glyph_trim other, glyphs]

/-- Laying out refuses a text for a character that prints nothing, and for no other reason. Printing
the tape gives back the text without the blanks at its ends, and a tape whose separator has a glyph of
its own is laid out again as it was. -/
theorem ofText_print (text : String) (separator : Char) :
    (ofText text separator = .error (.rejected text separator) ↔
        ∃ c ∈ text.toList, c ≠ separator ∧ c ∉ Symbol.fixedGlyphs) ∧
      ((∀ c ∈ text.toList, c = separator ∨ c ∈ Symbol.fixedGlyphs) →
        ∃ t, ofText text separator = .ok t ∧ t.separator = separator ∧
          t.content = if separator = '-' then text else String.ofList (strip text.toList)) ∧
      (separator ∉ Symbol.fixedGlyphs → ∀ t : Tape, t.separator = separator → t.Trimmed →
        ofText t.content separator = .ok t) := by
  refine ⟨?_, ?_, ?_⟩
  · have unprinted : (∃ c ∈ text.toList, c ≠ separator ∧ c ∉ Symbol.fixedGlyphs) ↔
        ¬ (text.toList.mapM (Symbol.ofGlyph separator)).isSome := by
      rw [Symbol.isSome_mapM_iff]
      push Not
      rfl
    rw [unprinted, ofText]
    cases text.toList.mapM (Symbol.ofGlyph separator) <;> simp
  · intro printed
    obtain ⟨row, laid⟩ := Option.isSome_iff_exists.mp (Symbol.isSome_mapM_iff.mpr printed)
    exact ⟨⟨(trim row).toArray, separator⟩, by rw [ofText, laid], rfl, content_trim laid⟩
  · rintro free t rfl trimmed
    rw [← Symbol.isSome_ofFixedGlyph_iff, Bool.not_eq_true, Option.isSome_eq_false_iff] at free
    exact trimmed.ofText_content free

theorem ofText_print_gaps : ∃ t, ofText "--1x-0-" 'x' = .ok t ∧ t.content = "1x-0" ∧
    ofText t.content 'x' = .ok t := by
  obtain ⟨-, printed, again⟩ := ofText_print "--1x-0-" 'x'
  obtain ⟨t, laid, separator, content⟩ := printed (by simp [Symbol.fixedGlyphs])
  exact ⟨t, laid, content, again (by decide) t separator (trimmed_ofText laid)⟩

end Content

section Line

theorem window_append (t : Tape) (start : Int) (m n : Nat) :
    t.window start (m + n) = t.window start m ++ t.window (start + m) n := by
  simp [window, List.range_add, Int.add_assoc]

theorem window_blank {start : Int} {count : Nat}
    (blank : ∀ i, start ≤ i → i < start + count → t.read i = .blank) :
    t.window start count = List.replicate count '-' := by
  rw [List.eq_replicate_iff]
  refine ⟨by simp [window], ?_⟩
  intro c member
  obtain ⟨i, least, less, rfl⟩ := mem_window member
  rw [blank i least less]
  rfl

theorem window_padded (t : Tape) (left right : Nat) :
    t.window (-left) (left + t.length + right) = padded left t.content.toList right := by
  have front : t.window (-left) left = List.replicate left '-' :=
    window_blank fun i _ less => read_of_neg (by omega)
  have back : t.window t.length right = List.replicate right '-' :=
    window_blank fun i least _ => read_of_size_le least
  have place : -(left : Int) + (left + t.length : Nat) = t.length := by omega
  rw [window_append, place, back, window_append, front, Int.add_left_neg, window_zero, padded,
    content, String.toList_ofList, List.append_assoc]

theorem exists_render (t : Tape) (i : Int) : ∃ before after left right,
    (t.render i).toList = before ++ Symbol.headGlyph :: after ∧
      before ++ after = padded left t.content.toList right ∧
        i = (before.length : Int) - (left : Nat) := by
  let first := min i 0
  let last := max i ((t.length : Int) - 1)
  refine ⟨t.window first (i - first).toNat, t.window i (last - i + 1).toNat, (-first).toNat,
    (last + 1 - t.length).toNat, ?_, ?_, ?_⟩
  · rw [render, String.toList_ofList]
  · have place : first + (i - first).toNat = i := by omega
    have start : first = -((-first).toNat : Int) := by omega
    have width : (i - first).toNat + (last - i + 1).toNat =
        (-first).toNat + t.length + (last + 1 - t.length).toNat := by omega
    rw [← window_padded, ← start, ← width, window_append, place]
  · rw [window, List.length_map, List.length_range]
    omega

theorem headGlyph_notMem_padded (free : Symbol.isReserved t.separator = false) (left right : Nat) :
    Symbol.headGlyph ∉ padded left t.content.toList right := by
  intro member
  rw [padded, content, String.toList_ofList, List.mem_append, List.mem_append,
    List.mem_replicate, List.mem_replicate, List.mem_map] at member
  rcases member with ⟨-, blank⟩ | ⟨s, -, mark⟩ | ⟨-, blank⟩
  · cases blank
  · exact Symbol.glyph_ne_headGlyph free s mark
  · cases blank

theorem Trimmed.bare (trimmed : t.Trimmed) (free : Symbol.isReserved t.separator = false)
    (nonempty : 0 < t.length) : Bare t.content.toList := by
  have printed {s : Option Symbol} (solid : s ≠ some .blank) :
      s.map (Symbol.glyph t.separator) ≠ some '-' := by
    intro blank
    obtain ⟨s, rfl, glyph⟩ := Option.map_eq_some_iff.mp blank
    exact Symbol.glyph_ne_blank free (fun same => solid (congrArg some same)) glyph
  obtain ⟨front, back⟩ := trimmed_iff.mp trimmed
  rw [content, String.toList_ofList]
  refine ⟨?_, ?_, ?_⟩
  · simpa [length, Array.size_eq_zero_iff] using nonempty.ne'
  · rw [List.head?_map]
    exact printed front
  · rw [List.getLast?_map]
    exact printed back

/-- Two lines are the same only for the same cells and the same position. A line shows as many blanks
around the tape as the head is away from it, and the mark of the head cannot be mistaken for a
cell. -/
theorem render_eq_iff (free : Symbol.isReserved t.separator = false)
    (same : u.separator = t.separator) (nonempty : 0 < t.length) (nonempty' : 0 < u.length)
    (trimmed : t.Trimmed) (trimmed' : u.Trimmed) (i j : Int) :
    (t.render i = u.render j ↔ t.cells = u.cells ∧ i = j) ∧
      (t.render i).toList.count Symbol.headGlyph = 1 ∧
      strip ((t.render i).toList.erase Symbol.headGlyph) = t.content.toList := by
  obtain ⟨before, after, left, right, line, shown, place⟩ := exists_render t i
  have bare := trimmed.bare free nonempty
  have unmarked := headGlyph_notMem_padded free left right
  rw [← shown, List.mem_append, not_or] at unmarked
  refine ⟨⟨?_, ?_⟩, ?_, ?_⟩
  · intro alike
    obtain ⟨before', after', left', right', line', shown', place'⟩ := exists_render u j
    have bare' := trimmed'.bare (same ▸ free) nonempty'
    -- The mark is in neither half, so the halves agree; joined again they tell the tape and the
    -- blanks in front of it, and the first half with these the position.
    rw [← String.toList_inj, line, line'] at alike
    obtain ⟨rfl, -, rfl⟩ := (List.append_cons_inj_of_notMem unmarked.1 unmarked.2).mp alike
    obtain ⟨contents, lefts⟩ := bare.padded_inj bare' (shown.symm.trans shown')
    have laid := trimmed.ofText_content (Symbol.isNone_ofFixedGlyph free)
    have laid' := trimmed'.ofText_content (Symbol.isNone_ofFixedGlyph (same ▸ free))
    rw [String.toList_inj.mp contents, ← same, laid'] at laid
    cases laid
    exact ⟨rfl, by omega⟩
  · rintro ⟨cells, rfl⟩
    cases t
    cases u
    cases same
    cases cells
    rfl
  · rw [line, List.count_append, List.count_cons_self, List.count_eq_zero.mpr unmarked.1,
      List.count_eq_zero.mpr unmarked.2]
  · rw [line, List.erase_append_right _ unmarked.1, List.erase_cons_head, shown, bare.strip_padded]

theorem render_eq_iff_behind : ∃ t : Tape, t.content = "1-x" ∧ t.render 4 = "1-x-Q-" ∧
    t.render 4 ≠ t.render 3 ∧
      strip ((t.render 4).toList.erase Symbol.headGlyph) = t.content.toList := by
  let t : Tape := ⟨#[.one, .blank, .delimiter], 'x'⟩
  have trimmed : t.Trimmed := ⟨by decide, by decide⟩
  obtain ⟨alike, -, stripped⟩ :=
    render_eq_iff (t := t) (u := t) (by decide) rfl (by decide) (by decide) trimmed trimmed 4 3
  exact ⟨t, by decide, by decide, fun same => absurd (alike.mp same).2 (by decide), stripped⟩

end Line

end Tape

end TuringMultiplier
