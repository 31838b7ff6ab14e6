import TuringMultiplier.Machine
import TuringMultiplier.Proofs.Drive

/-! One advance, whatever is on the tape: how it ends, what it costs, and what it leaves alone. With
a fuse it returns within the moves that are left and one more. -/

set_option autoImplicit false

namespace TuringMultiplier

open Procedure

namespace Procedure

/-- Only at the bottom digit of a column the control refuses to go on. It names what is there, which
is no digit; the column itself does not fail. -/
theorem table_refuse {q : State} {s : Symbol} {fault : Fault} (refused : table q s = .refuse fault) :
    ∃ carry top, q = .bottomPick carry top ∧ s.bit = none ∧
      fault = if s = .endMark then .bottomTermExhausted else .unexpectedSymbol s := by
  unfold table at refused
  split at refused
  all_goals try split at refused
  all_goals cases refused
  · exact ⟨_, _, rfl, rfl, rfl⟩
  · next other _ _ bit =>
    exact ⟨_, _, rfl, bit, (if_neg other).symm⟩
  · next carry top _ _ _ _ bit failed =>
    rcases Column.add_eq_none_iff.mp failed with none_ | none_
    · rw [Symbol.bit_digit] at none_
      cases none_
    · rw [bit] at none_
      cases none_

theorem entry_ne_refuse (p : Phase) (s : Symbol) (fault : Fault) :
    table (entry p) s ≠ .refuse fault := by
  intro refused
  obtain ⟨carry, top, same, -⟩ := table_refuse refused
  cases p <;> cases same

-- Only these two phases can end where they start.
theorem entry_finish {p q : Phase} {s : Symbol} {w : List Symbol} (live : p ≠ .done)
    (turn : table (entry p) s = .finish w q) :
    (p = .zeroCheck ∧ q = .endMark) ∨ (p = .digitScan ∧ q = .dispatch) := by
  cases p <;> cases s <;> cases turn <;> simp at live ⊢

end Procedure

namespace Head

def note (h : Head) (before after : Phase) : Head :=
  { h with journal := h.journal.notePhase before after h.steps h.tape.length }

theorem Reaches.note {count : Nat} {b : Span} {before after : Head}
    (reaches : before.Reaches count b after) (p q : Phase) :
    before.Reaches count b (after.note p q) :=
  ⟨⟨reaches.shown.coherent, reaches.shown.solid, reaches.shown.place⟩, reaches.steps,
    reaches.stepLimit, reaches.separator⟩

end Head

namespace Machine

variable {m after : Machine} {p q : Phase} {last : Head} {fault : Fault} {limit patience : Nat}

section Equations

def driven (m : Machine) (patience : Nat) : Outcome Phase × Head :=
  table.drive (m.head.turns patience) (entry m.phase) m.head

theorem advance_of_done (ended : m.driven patience = (.done q, last)) :
    m.advance patience = (.done q, ⟨last.note m.phase q, q⟩) := by
  obtain ⟨head, phase⟩ := m
  rw [driven] at ended
  rw [advance, ended]
  rfl

theorem advance_of_failed (ended : m.driven patience = (.failed fault, last)) :
    m.advance patience = (.failed fault, ⟨last, m.phase⟩) := by
  obtain ⟨head, phase⟩ := m
  rw [driven] at ended
  rw [advance, ended]

theorem advance_of_unfinished (ended : m.driven patience = (.unfinished, last)) :
    m.advance patience = (.unfinished, ⟨last, m.phase⟩) := by
  obtain ⟨head, phase⟩ := m
  rw [driven] at ended
  rw [advance, ended]

theorem advance_eq (m : Machine) (patience : Nat) :
    (m.advance patience).1 = (m.driven patience).1 ∧
      ∃ journal, (m.advance patience).2.head = { (m.driven patience).2 with journal } := by
  rcases ended : m.driven patience with ⟨q | fault | _, last⟩
  · rw [advance_of_done ended]
    exact ⟨rfl, _, rfl⟩
  · rw [advance_of_failed ended]
    exact ⟨rfl, _, rfl⟩
  · rw [advance_of_unfinished ended]
    exact ⟨rfl, _, rfl⟩

theorem outcome_advance (m : Machine) (patience : Nat) :
    (m.advance patience).1 = (m.driven patience).1 := (advance_eq m patience).1

theorem steps_advance (m : Machine) (patience : Nat) :
    (m.advance patience).2.head.steps = (m.driven patience).2.steps := by
  obtain ⟨-, journal, head⟩ := advance_eq m patience
  rw [head]

theorem phase_of_advance (advanced : m.advance patience = (.done q, after)) : after.phase = q := by
  have answered := outcome_advance m patience
  rcases ended : m.driven patience with ⟨next | _ | _, last⟩ <;> rw [advanced, ended] at answered
  · rw [advance_of_done ended] at advanced
    cases advanced
    rfl
  · cases answered
  · cases answered

theorem phase_of_failed (failed : (m.advance patience).1 = .failed fault) :
    (m.advance patience).2.phase = m.phase := by
  rw [outcome_advance] at failed
  rcases ended : m.driven patience with ⟨next | _ | _, last⟩ <;> rw [ended] at failed
  · cases failed
  · rw [advance_of_failed ended]
  · cases failed

end Equations

section Spending

theorem stepLimit_advance (m : Machine) (patience : Nat) :
    (m.advance patience).2.head.stepLimit = m.head.stepLimit := by
  obtain ⟨-, journal, head⟩ := advance_eq m patience
  rw [head]
  exact Control.stepLimit_drive table _ _ m.head

theorem steps_le_advance (m : Machine) (patience : Nat) :
    m.head.steps ≤ (m.advance patience).2.head.steps := by
  rw [steps_advance]
  exact Control.steps_le_drive table _ _ m.head

theorem advance_spent (fused : m.head.stepLimit = some limit) (patience : Nat) :
    (m.advance patience).2.head.steps ≤ max limit m.head.steps ∨
      (m.advance patience).1 = .failed (.stepLimitExceeded limit) ∧
        (m.advance patience).2.head.steps = max limit m.head.steps + 1 := by
  rw [steps_advance, outcome_advance]
  exact Control.drive_spent fused _ _

theorem advance_returns (fused : m.head.stepLimit = some limit) (patience : Nat) :
    (m.advance patience).1 ≠ .unfinished := by
  rw [outcome_advance]
  apply Control.drive_ne_unfinished fused
  simp [Head.turns, fused]

/-- The fault of an advance is a refusal of the control, or the fuse's after a move too many. -/
theorem advance_failed (failed : (m.advance patience).1 = .failed fault) :
    (∃ q s, table q s = .refuse fault) ∨ ∃ limit ∈ m.head.stepLimit,
      fault = .stepLimitExceeded limit ∧ limit < (m.advance patience).2.head.steps := by
  rw [outcome_advance] at failed
  rw [steps_advance]
  exact Control.drive_failed failed

/-- No phase starts with a refusal, so a fault comes after a move. -/
theorem advance_still (ended : (m.advance patience).1 ≠ .unfinished)
    (still : (m.advance patience).2.head.steps = m.head.steps) :
    ∃ w q, table (entry m.phase) m.head.symbol = .finish w q ∧
      (m.advance patience).1 = .done q := by
  rw [outcome_advance] at ended ⊢
  rw [steps_advance] at still
  rcases Control.drive_still ended still with first | ⟨fault, turn, -⟩
  · exact first
  · exact absurd turn (entry_ne_refuse _ _ _)

end Spending

section Runs

variable {count : Nat}

theorem advanceUntilDone_of_done (finished : m.phase = .done) :
    m.advanceUntilDone patience (count + 1) = (.done (), m) := if_pos finished

theorem advanceUntilDone_of_advance (live : m.phase ≠ .done)
    (advanced : m.advance patience = (.done q, after)) :
    m.advanceUntilDone patience (count + 1) = after.advanceUntilDone patience count := by
  rw [advanceUntilDone, if_neg live, advanced]

theorem advanceUntilDone_of_failed (live : m.phase ≠ .done)
    (advanced : m.advance patience = (.failed fault, after)) :
    m.advanceUntilDone patience (count + 1) = (.failed fault, after) := by
  rw [advanceUntilDone, if_neg live, advanced]

theorem advanceUntilDone_of_unfinished (live : m.phase ≠ .done)
    (advanced : m.advance patience = (.unfinished, after)) :
    m.advanceUntilDone patience (count + 1) = (.unfinished, after) := by
  rw [advanceUntilDone, if_neg live, advanced]

theorem steps_le_advanceUntilDone (m : Machine) (patience count : Nat) :
    m.head.steps ≤ (m.advanceUntilDone patience count).2.head.steps := by
  induction count generalizing m with
  | zero => exact Nat.le_refl _
  | succ count ih =>
    have grown := steps_le_advance m patience
    rw [advanceUntilDone]
    split
    · exact Nat.le_refl _
    · rcases advanced : m.advance patience with ⟨q | fault | _, after⟩ <;> rw [advanced] at grown
      · exact Nat.le_trans grown (ih after)
      · exact grown
      · exact grown

theorem advanceUntilDone_failed (failed : (m.advanceUntilDone patience count).1 = .failed fault) :
    (∃ q s, table q s = .refuse fault) ∨ ∃ limit ∈ m.head.stepLimit,
      fault = .stepLimitExceeded limit ∧
        limit < (m.advanceUntilDone patience count).2.head.steps := by
  induction count generalizing m with
  | zero => cases failed
  | succ count ih =>
    by_cases finished : m.phase = .done
    · rw [advanceUntilDone_of_done finished] at failed
      cases failed
    · have kept := stepLimit_advance m patience
      have refused := @advance_failed m fault patience
      rcases advanced : m.advance patience with ⟨q | other | _, after⟩ <;>
        simp only [advanced] at kept refused
      · rw [advanceUntilDone_of_advance finished advanced] at failed ⊢
        rw [← kept]
        exact ih failed
      · rw [advanceUntilDone_of_failed finished advanced] at failed ⊢
        cases failed
        exact refused rfl
      · rw [advanceUntilDone_of_unfinished finished advanced] at failed
        cases failed

theorem advanceUntilDone_exceeded
    (failed : (m.advanceUntilDone patience count).1 = .failed (.stepLimitExceeded limit)) :
    m.head.stepLimit = some limit ∧ limit < (m.advanceUntilDone patience count).2.head.steps := by
  rcases advanceUntilDone_failed failed with ⟨q, s, refused⟩ | ⟨other, member, same, passed⟩
  · obtain ⟨_, _, _, _, same⟩ := table_refuse refused
    split at same <;> cases same
  · cases same
    exact ⟨member, passed⟩

end Runs

end Machine

end TuringMultiplier
