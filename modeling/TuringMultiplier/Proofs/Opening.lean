import TuringMultiplier.Proofs.Dispatch

/-! The phases before the first digit is dispatched. A first factor that is just `0` leaves nothing
to do; any other input gets its end mark, and the head goes back to the delimiter. -/

set_option autoImplicit false

namespace TuringMultiplier.Procedure

open Layout State Control
open TuringMultiplier.Symbol (zero one delimiter endMark digit)

def atStart (first second : List Bool) : Span :=
  ⟨[], row first ++ delimiter :: row second⟩

def atEndMark (first second : List Bool) : Span :=
  ⟨(row second).reverse ++ delimiter :: (row first).reverse, [endMark]⟩

variable {first second : List Bool}

theorem zeroCheck_zero : table.Ends (second.length + 4) zeroFirst (atStart [false] second)
    .done ⟨[], [zero]⟩ := by
  have look : table.Path 1 zeroFirst (atStart [false] second)
      zeroSecond ⟨[zero], delimiter :: row second⟩ := .right rfl (by decide)
  have back : table.Path 1 zeroSecond ⟨[zero], delimiter :: row second⟩
      zeroErase ⟨[], zero :: delimiter :: row second⟩ := .left rfl (by decide)
  have erase : table.Path (zero :: delimiter :: row second).length
      zeroErase ⟨[], zero :: delimiter :: row second ++ []⟩ zeroErase ⟨[], []⟩ :=
    .eraseRow [zero, one, delimiter] (by decide) (by simp) (by simp)
  rw [List.append_nil] at erase
  have ended : table.Ends 0 zeroErase ⟨[], []⟩ .done ⟨[], [zero]⟩ :=
    ⟨.nil, rfl, .alone (.append (by decide))⟩
  convert (look.trans back).ends (erase.ends ended) using 1
  simp
  omega

-- A leading zero of a longer factor is looked behind and come back to.
theorem zeroCheck_nonzero (nonempty : first ≠ []) (nonzero : first ≠ [false]) :
    ∃ count ≤ 2, table.Ends count zeroFirst (atStart first second)
      .endMark (atStart first second) := by
  obtain ⟨b, low, rfl⟩ := List.exists_cons_of_ne_nil nonempty
  cases b with
  | true => exact ⟨0, by omega, Path.nil.finish rfl⟩
  | false =>
    cases low with
    | nil => exact absurd rfl nonzero
    | cons c low =>
      have look : table.Path 1 zeroFirst (atStart (false :: c :: low) second)
          zeroSecond ⟨[zero], digit c :: (row low ++ delimiter :: row second)⟩ :=
        .right rfl (by decide)
      have back : table.Path 1
          zeroSecond ⟨[zero], digit c :: (row low ++ delimiter :: row second)⟩
          zeroBack (atStart (false :: c :: low) second) := by
        cases c <;> exact .left rfl (by decide)
      exact ⟨2, le_rfl, (look.trans back).finish rfl⟩

theorem endMark_ends : table.Ends (first.length + second.length + 1)
    endDelimiter (atStart first second) .digitScan (atEndMark first second) := by
  have across : table.Path (row first).length endDelimiter (atStart first second)
      endDelimiter ⟨(row first).reverse ++ [], delimiter :: row second⟩ :=
    .scanRight [zero, one] (by decide) (by simp)
  rw [List.append_nil] at across
  have pass : table.Path 1 endDelimiter ⟨(row first).reverse, delimiter :: row second⟩
      endBlank ⟨delimiter :: (row first).reverse, row second⟩ := .right rfl (by decide)
  have out : table.Path (row second).length
      endBlank ⟨delimiter :: (row first).reverse, row second ++ []⟩
      endBlank ⟨(row second).reverse ++ delimiter :: (row first).reverse, []⟩ :=
    .scanRight [zero, one] (by decide) (by simp)
  rw [List.append_nil] at out
  have mark : table.Ends 0
      endBlank ⟨(row second).reverse ++ delimiter :: (row first).reverse, []⟩
      .digitScan (atEndMark first second) := ⟨.nil, rfl, .alone (.append (by decide))⟩
  convert (across.trans pass).ends (out.ends mark) using 1
  simp
  omega

theorem digitScan_ends : table.Ends (second.length + 1)
    digitDelimiter (atEndMark first second) .dispatch (atDelimiter first 0 second []) := by
  have leave : table.Path 1 digitDelimiter (atEndMark first second)
      digitDelimiter (Span.leftOf ((row second).reverse ++ delimiter :: (row first).reverse)
        [endMark]) := .left rfl (by decide)
  have back : table.Path (row second).reverse.length
      digitDelimiter (Span.leftOf ((row second).reverse ++ delimiter :: (row first).reverse)
        [endMark])
      digitDelimiter (Span.leftOf (delimiter :: (row first).reverse)
        ((row second).reverse.reverse ++ [endMark])) :=
    .scanLeft [zero, one] (by decide) (by simp)
  have home : Span.leftOf (delimiter :: (row first).reverse)
      ((row second).reverse.reverse ++ [endMark]) = atDelimiter first 0 second [] := by
    simp [Span.leftOf, atDelimiter, work]
  rw [home] at back
  convert (leave.trans back).finish rfl using 1
  simp
  omega

end TuringMultiplier.Procedure
