import TuringMultiplier.Proofs.Opening

/-! The phases that leave the terms alone on the tape, and the last phase, which leaves the product
alone on it. -/

set_option autoImplicit false

namespace TuringMultiplier.Procedure

open Layout State Control
open TuringMultiplier.Symbol (zero one delimiter blank consumed endMark shift digit)

section Factors

def atRightEnd (used : Nat) (second : List Bool) (places : List Nat) : Span :=
  ⟨(factors used second ++ endMark :: summands second places).reverse, []⟩

def atShift (top : List Bool) (rest : List Symbol) : Span :=
  ⟨[], shift :: (row top ++ endMark :: rest)⟩

variable {used : Nat} {second : List Bool} {places : List Nat}

theorem placeValue_ends : table.Ends (used + second.length + (terms second places).length + 3)
    placeStart (atLeftEnd used second places) .inputRemoval (atRightEnd used second places) := by
  have enter : table.Path 1 placeStart (atLeftEnd used second places)
      placeStart ⟨[], factors used second ++ endMark :: terms second places⟩ := .enter rfl
  have across : table.Path (factors used second).length
      placeStart ⟨[], factors used second ++ endMark :: terms second places⟩
      placeStart ⟨(factors used second).reverse ++ [], endMark :: terms second places⟩ :=
    .scanRight [consumed, delimiter, zero, one] (by decide)
      (by simp)
  rw [List.append_nil] at across
  have pass : table.Path 1
      placeStart ⟨(factors used second).reverse, endMark :: terms second places⟩
      placeFill ⟨endMark :: (factors used second).reverse, terms second places⟩ :=
    .right rfl (by decide)
  have fill : table.Path (terms second places).length
      placeFill ⟨endMark :: (factors used second).reverse, terms second places ++ []⟩
      placeFill ⟨((terms second places).map filled).reverse ++
        endMark :: (factors used second).reverse, []⟩ :=
    .sweepRight filled marks (by decide) (by simp)
  have there : (⟨((terms second places).map filled).reverse ++
      endMark :: (factors used second).reverse, []⟩ : Span) = atRightEnd used second places := by
    simp [atRightEnd, map_filled_terms]
  rw [List.append_nil, there] at fill
  convert ((enter.trans across).trans (pass.trans fill)).finish rfl using 1
  simp
  omega

theorem removal_path :
    table.Path (2 * used + 2 * second.length + (summands second places).length + 6)
      removalStart (atRightEnd used second places) removalCheck ⟨[], summands second places⟩ := by
  have leave : table.Path 1 removalStart (atRightEnd used second places)
      removalSeek (Span.leftOf
        (factors used second ++ endMark :: summands second places).reverse []) := .turnBack rfl
  have seek : table.Path (factors used second ++ endMark :: summands second places).reverse.length
      removalSeek (Span.leftOf
        ((factors used second ++ endMark :: summands second places).reverse ++ []) [])
      removalSeek (Span.leftOf []
        ((factors used second ++ endMark :: summands second places).reverse.reverse ++ [])) :=
    .scanLeft [consumed, delimiter, zero, one, endMark] (by decide) (by simp)
  simp only [List.reverse_reverse, List.append_nil] at seek
  have enter : table.Path 1
      removalSeek (Span.leftOf [] (factors used second ++ endMark :: summands second places))
      removalErase ⟨[], factors used second ++ endMark :: summands second places⟩ := .enter rfl
  have erase : table.Path (factors used second).length
      removalErase ⟨[], factors used second ++ endMark :: summands second places⟩
      removalErase ⟨[], endMark :: summands second places⟩ :=
    .eraseRow [consumed, delimiter, zero, one] (by decide)
      (by simp) (by simp)
  have solid : (summands second places ++ []).head? ≠ some blank :=
    head?_ne_blank (show _ ⊆ [zero, one, endMark] by simp) (by decide) (by simp)
  rw [List.append_nil] at solid
  have last : table.Path 1 removalErase ⟨[], endMark :: summands second places⟩
      removalCheck ⟨[], summands second places⟩ := .erase rfl solid (by decide)
  convert (leave.trans seek).trans (enter.trans (erase.trans last)) using 1
  simp
  omega

theorem inputRemoval_nil : table.Ends (2 * used + 2 * second.length + 6)
    removalStart (atRightEnd used second []) .done ⟨[], [zero]⟩ := by
  have write : table.Ends 0 removalCheck ⟨[], summands second []⟩ .done ⟨[], [zero]⟩ :=
    ⟨.nil, rfl, .alone (.append (by decide))⟩
  exact removal_path.ends write

theorem inputRemoval_cons (place : Nat) :
    table.Ends (2 * used + 2 * second.length + (summands second (place :: places)).length + 7)
      removalStart (atRightEnd used second (place :: places))
      .addition (atShift (shifted second place) (summands second places)) := by
  obtain ⟨s, rest, same⟩ : ∃ s rest, summands second (place :: places) = s :: rest :=
    List.exists_cons_of_ne_nil (by simp)
  have back : table.Path 1 removalCheck ⟨[], summands second (place :: places)⟩
      removalMark ⟨[], blank :: summands second (place :: places)⟩ := by
    have within : summands second (place :: places) ⊆ [zero, one, endMark] := by simp
    rw [same] at within ⊢
    have member : s ∈ [zero, one, endMark] := within (by simp)
    simp only [List.mem_cons, List.not_mem_nil, or_false] at member
    rcases member with rfl | rfl | rfl <;> exact .left rfl (by decide)
  have write : table.Ends 0 removalMark ⟨[], blank :: summands second (place :: places)⟩
      .addition (atShift (shifted second place) (summands second places)) := by
    rw [summands_cons]
    exact ⟨.nil, rfl, .alone (.put (by decide))⟩
  exact removal_path.ends (back.ends write)

def atTerms (second : List Bool) : List Nat → Span
  | [] => ⟨[], [zero]⟩
  | place :: places => atShift (shifted second place) (summands second places)

def afterRemoval : List Nat → Phase
  | [] => .done
  | _ :: _ => .addition

theorem inputRemoval_ends :
    ∃ count ≤ 2 * used + 2 * second.length + (summands second places).length + 7,
      table.Ends count removalStart (atRightEnd used second places)
        (afterRemoval places) (atTerms second places) := by
  cases places with
  | nil => exact ⟨_, by simp, inputRemoval_nil⟩
  | cons place places => exact ⟨_, le_rfl, inputRemoval_cons place⟩

end Factors

section Product

variable {bits : List Bool}

theorem leadingZero_ends (nonempty : bits ≠ []) : ∃ count ≤ 3 * bits.length,
    table.Ends count leadingZero ⟨[], row bits⟩ .done ⟨[], row (Numeral.strip bits)⟩ := by
  -- Along `strip`: a zero goes only if another digit follows it.
  induction bits with
  | nil => exact absurd rfl nonempty
  | cons b low ih =>
    cases b with
    | true => exact ⟨0, by omega, Path.nil.finish rfl⟩
    | false =>
      cases low with
      | nil =>
        have look : table.Path 1 leadingZero ⟨[], row [false]⟩ leadingCheck ⟨[zero], []⟩ :=
          .right rfl (by decide)
        have back : table.Path 1 leadingCheck ⟨[zero], []⟩ leadingKeep ⟨[], row [false]⟩ :=
          .turnBack rfl
        exact ⟨2, by simp, (look.trans back).finish rfl⟩
      | cons c low =>
        obtain ⟨count, bound, ends⟩ := ih (by simp)
        have look : table.Path 1 leadingZero ⟨[], row (false :: c :: low)⟩
            leadingCheck ⟨[zero], row (c :: low)⟩ := .right rfl (by decide)
        have back : table.Path 1 leadingCheck ⟨[zero], row (c :: low)⟩
            leadingErase ⟨[], row (false :: c :: low)⟩ := by
          cases c <;> exact .left rfl (by decide)
        have erase : table.Path 1 leadingErase ⟨[], row (false :: c :: low)⟩
            leadingZero ⟨[], row (c :: low)⟩ := by
          cases c <;> exact .erase rfl (by simp [Symbol.digit]) (by decide)
        refine ⟨1 + 1 + 1 + count, ?_, ((look.trans back).trans erase).ends ends⟩
        simp at bound ⊢
        omega

def atProduct (bits : List Bool) : Span :=
  ⟨(shift :: (row bits ++ [endMark])).reverse, []⟩

theorem cleanup_ends (nonempty : bits ≠ []) : ∃ count ≤ 4 * bits.length + 3,
    table.Ends count cleanupStart (atProduct bits) .done ⟨[], row (Numeral.strip bits)⟩ := by
  have leave : table.Path 1 cleanupStart (atProduct bits)
      cleanupEnd ⟨(row bits).reverse ++ [shift], [endMark]⟩ := by
    have reversed : (shift :: (row bits ++ [endMark])).reverse =
      endMark :: ((row bits).reverse ++ [shift]) := by simp
    rw [atProduct, reversed]
    exact .turnBack rfl
  have chop : table.Path 1 cleanupEnd ⟨(row bits).reverse ++ [shift], [endMark]⟩
      cleanupSeek (Span.leftOf ((row bits).reverse ++ [shift]) []) := by
    obtain ⟨neighbour, behind, same⟩ : ∃ s rest, (row bits).reverse ++ [shift] = s :: rest :=
      List.exists_cons_of_ne_nil (by simp)
    have within : (row bits).reverse ++ [shift] ⊆ [zero, one, shift] := by simp
    rw [same] at within ⊢
    have member : neighbour ∈ [zero, one, shift] := within (by simp)
    refine .chop rfl ?_
    rintro rfl
    simp at member
  have seek : table.Path (row bits).reverse.length
      cleanupSeek (Span.leftOf ((row bits).reverse ++ [shift]) [])
      cleanupSeek (Span.leftOf [shift] ((row bits).reverse.reverse ++ [])) :=
    .scanLeft [zero, one] (by decide) (by simp)
  rw [List.reverse_reverse, List.append_nil] at seek
  have solid : (row bits ++ []).head? ≠ some blank :=
    head?_ne_blank (show _ ⊆ [zero, one] by simp) (by decide) (by simp)
  rw [List.append_nil] at solid
  have erase : table.Path 1 cleanupSeek (Span.leftOf [shift] (row bits))
      leadingZero ⟨[], row bits⟩ := .erase rfl solid (by decide)
  obtain ⟨count, bound, ends⟩ := leadingZero_ends nonempty
  refine ⟨_, ?_, ((leave.trans chop).trans (seek.trans erase)).ends ends⟩
  simp
  omega

end Product

end TuringMultiplier.Procedure
