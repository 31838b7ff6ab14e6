import TuringMultiplier.Numeral

/-! The form of an input: a binary number, the separator, a binary number, and nothing around them.
`Accepted` states the form, and `accepts` decides it for any separator, also for a digit. -/

set_option autoImplicit false

namespace TuringMultiplier

/-- One or more binary digits. Leading zeros are allowed. -/
def IsNumeral (text : List Char) : Prop := text ≠ [] ∧ ∀ c ∈ text, Numeral.isDigit c

-- Looks at the text alone. An instance that is searched for may run through all characters.
instance (text : List Char) : Decidable (IsNumeral text) :=
  @instDecidableAnd _ _ _ (List.decidableBAll _ text)

def Accepted (separator : Char) (text : List Char) : Prop :=
  ∃ first second, text = first ++ separator :: second ∧ IsNumeral first ∧ IsNumeral second

def acceptsAfterDigit (separator : Char) : List Char → Bool
  | [] => false
  | c :: rest =>
    (c == separator && decide (IsNumeral rest))
      || (Numeral.isDigit c && acceptsAfterDigit separator rest)

def accepts (separator : Char) : List Char → Bool
  | [] => false
  | c :: rest => Numeral.isDigit c && acceptsAfterDigit separator rest

def isInput (text : String) (separator : Char) : Bool := accepts separator text.toList

theorem acceptsAfterDigit_iff {separator : Char} {text : List Char} :
    acceptsAfterDigit separator text ↔
      ∃ more second, text = more ++ separator :: second ∧
        (∀ c ∈ more, Numeral.isDigit c) ∧ IsNumeral second := by
  induction text with
  | nil => simp [acceptsAfterDigit]
  | cons c rest ih =>
    simp only [acceptsAfterDigit, Bool.or_eq_true, Bool.and_eq_true, beq_iff_eq,
      decide_eq_true_eq, ih]
    constructor
    · rintro (⟨rfl, numeral⟩ | ⟨digit, more, second, rfl, digits, numeral⟩)
      · exact ⟨[], rest, rfl, by simp, numeral⟩
      · exact ⟨c :: more, second, rfl, by simpa [digit] using digits, numeral⟩
    · rintro ⟨more, second, same, digits, numeral⟩
      cases more with
      | nil =>
        obtain ⟨rfl, rfl⟩ := List.cons.inj same
        exact .inl ⟨rfl, numeral⟩
      | cons m more =>
        obtain ⟨rfl, rfl⟩ := List.cons.inj same
        exact .inr ⟨digits c (by simp), more, second, rfl,
          fun d member => digits d (by simp [member]), numeral⟩

theorem accepts_iff {separator : Char} {text : List Char} :
    accepts separator text ↔ Accepted separator text := by
  cases text with
  | nil => simp [accepts, Accepted]
  | cons c rest =>
    simp only [accepts, Bool.and_eq_true, acceptsAfterDigit_iff, Accepted, IsNumeral]
    constructor
    · rintro ⟨digit, more, second, rfl, digits, numeral⟩
      exact ⟨c :: more, second, rfl, ⟨by simp, by simpa [digit] using digits⟩, numeral⟩
    · rintro ⟨first, second, same, ⟨nonempty, digits⟩, numeral⟩
      cases first with
      | nil => exact absurd rfl nonempty
      | cons f more =>
        obtain ⟨rfl, rfl⟩ := List.cons.inj same
        exact ⟨digits c (by simp), more, second, rfl,
          fun d member => digits d (by simp [member]), numeral⟩

end TuringMultiplier
