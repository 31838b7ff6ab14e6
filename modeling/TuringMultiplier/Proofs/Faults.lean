import TuringMultiplier.Proofs.Phases
import TuringMultiplier.Proofs.Scans

/-! What can stop a machine that runs, whatever is on its tape. Besides the fuse it is a column of an
addition that has no bottom digit. The control comes to such a column by a step back from a cell that
is done, over cells that are not, so what it finds there is never a digit of the sum. -/

set_option autoImplicit false

namespace TuringMultiplier

namespace Procedure

variable {p : Phase} {q r : State} {h : Head} {s : Symbol} {w : List Symbol} {d : Direction}
  {fault : Fault} {carry top : Bool}

/-- The column that the control is about to add is not summed yet: no stand-in is in the cell left
of the head, while the control is on its way, or under the head. -/
def State.Unsummed : State → Head → Prop
  | bottomEnd .., h => (h.view (-1)).restored = h.view (-1)
  | bottomPick .., h => h.symbol.restored = h.symbol
  | _, _ => True

theorem table_go_bottomEnd (turn : table q s = .go w d (.bottomEnd carry top)) :
    w = [] ∧ d = .right ∧ s.restored = s := by
  unfold table at turn
  split at turn
  all_goals try split at turn
  all_goals cases turn
  · exact ⟨rfl, rfl, rfl⟩
  · next zero one _ => exact ⟨rfl, rfl, by cases s <;> first | rfl | contradiction⟩

theorem table_go_bottomPick (turn : table q s = .go w d (.bottomPick carry top)) :
    w = [] ∧ d = .left ∧ q = .bottomEnd carry top := by
  unfold table at turn
  split at turn
  all_goals try split at turn
  all_goals cases turn
  all_goals exact ⟨rfl, rfl, rfl⟩

theorem State.Unsummed.turn (unsummed : q.Unsummed h) (coherent : h.Coherent)
    (turn : table q h.symbol = .go w d r) : r.Unsummed ((h.mark w).move d) := by
  cases r with
  | bottomEnd =>
    -- The cell that the head leaves is the one to its left now.
    obtain ⟨rfl, rfl, passed⟩ := table_go_bottomEnd turn
    have behind : ((h.mark []).move .right).view (-1) = h.symbol := by
      rw [Head.view_move, ← Head.view_zero coherent]
      rfl
    simpa only [State.Unsummed, behind] using passed
  | bottomPick =>
    obtain ⟨rfl, rfl, rfl⟩ := table_go_bottomPick turn
    exact unsummed
  | _ => trivial

def foreign : List Symbol := [.delimiter, .blank, .consumed, .tenner, .shift]

/-- The faults that stop a machine with this limit while it runs, and the phase they stop it in. -/
inductive Raises (limit : Option Nat) : Phase → Fault → Prop where
  | blown {p : Phase} {moves : Nat} (fused : limit = some moves) :
      Raises limit p (.stepLimitExceeded moves)
  | exhausted : Raises limit .addition .bottomTermExhausted
  | unexpected {found : Symbol} (strange : found ∈ foreign) :
      Raises limit .addition (.unexpectedSymbol found)

structure State.Sound (p : Phase) (q : State) (h : Head) : Prop where
  phase : q.phase = p
  coherent : h.Coherent
  unsummed : q.Unsummed h

theorem sound_entry (coherent : h.Coherent) (p : Phase) : (entry p).Sound p h :=
  ⟨phase_entry p, coherent, by cases p <;> trivial⟩

theorem State.Sound.turn (sound : q.Sound p h) (turn : table q h.symbol = .go w d r) :
    r.Sound p ((h.mark w).move d) :=
  ⟨(phase_of_go turn).trans sound.phase, Head.coherent_move _ _,
    sound.unsummed.turn sound.coherent turn⟩

theorem State.Sound.refuse (sound : q.Sound p h) (refused : table q h.symbol = .refuse fault)
    (limit : Option Nat) : Raises limit p fault := by
  obtain ⟨phase, -, unsummed⟩ := sound
  obtain ⟨carry, top, rfl, bit, same⟩ := table_refuse refused
  obtain rfl : Phase.addition = p := phase
  subst same
  split
  · exact .exhausted
  · next inside =>
    have summand : h.symbol.restored = h.symbol := unsummed
    apply Raises.unexpected
    cases symbol : h.symbol <;> rw [symbol] at bit inside summand <;>
      first | decide | contradiction

end Procedure

open Procedure

namespace Machine

variable {m after : Machine} {fault : Fault} {patience count : Nat}

theorem raises_of_advance (coherent : m.head.Coherent)
    (failed : (m.advance patience).1 = .failed fault) :
    Raises m.head.stepLimit m.phase fault := by
  rw [outcome_advance] at failed
  rcases Control.drive_failed_of_kept State.Sound.turn (sound_entry coherent m.phase) failed with
    ⟨q, g, sound, refused⟩ | ⟨limit, fused, rfl, -⟩
  · exact sound.refuse refused m.head.stepLimit
  · exact .blown fused

theorem notes_of_failed (failed : (m.advance patience).1 = .failed fault) : ∃ noted,
    (m.advance patience).2.head.journal.entries.toList =
      m.head.journal.entries.toList ++ noted ∧ ∀ event ∈ noted, event.isMove := by
  have entries := m.head.entries_replay (m.advanceActs patience)
  rw [← head_replay, replay_advanceActs] at entries
  have changes : (m.advance patience).2.head.changes = m.head.changes := by
    apply changes_stopped
    intro q done
    cases failed.symm.trans done
  rw [Head.changes, entries, List.filterMap_append] at changes
  have unchanged := List.filterMap_eq_nil_iff.mp (List.append_right_eq_self.mp changes)
  refine ⟨_, entries, ?_⟩
  intro event member
  cases event with
  | moved => rfl
  | phaseChanged => cases unchanged _ member

theorem coherent_advance (coherent : m.head.Coherent) (patience : Nat) :
    (m.advance patience).2.head.Coherent := by
  rw [← replay_advanceActs, head_replay]
  exact Head.coherent_replay coherent _

/-- On any tape, an advance that fails stays in its phase and notes no change of phase. Its fault is
the fuse's, or the phase is an addition that found something else in place of a bottom digit. -/
theorem advance_faults (coherent : m.head.Coherent)
    (failed : (m.advance patience).1 = .failed fault) :
    (m.advance patience).2.phase = m.phase ∧
      (∃ noted, (m.advance patience).2.head.journal.entries.toList =
        m.head.journal.entries.toList ++ noted ∧ ∀ event ∈ noted, event.isMove) ∧
      Raises m.head.stepLimit m.phase fault :=
  ⟨phase_of_failed failed, notes_of_failed failed, raises_of_advance coherent failed⟩

/-- A consumed digit right of the end mark, where the column of the only top digit needs a digit. -/
theorem advance_faults_consumed : ∃ m : Machine, m.head.Coherent ∧
    (m.advance 0).1 = .failed (.unexpectedSymbol .consumed) ∧
      (m.advance 0).2.phase = .addition ∧
      Raises (some 100) .addition (.unexpectedSymbol .consumed) := by
  let m : Machine := ⟨.ofTape ⟨#[.shift, .one, .endMark, .consumed, .endMark], 'x'⟩ (some 100) .step,
    .addition⟩
  have failed : (m.advance 0).1 = .failed (.unexpectedSymbol .consumed) := by decide +kernel
  obtain ⟨phase, -, raises⟩ := advance_faults (m := m) rfl failed
  exact ⟨m, rfl, failed, phase, raises⟩

theorem calculate_raises (coherent : m.head.Coherent)
    (failed : (m.calculate patience).1 = .failed fault) :
    Raises m.head.stepLimit (m.calculate patience).2.phase fault := by
  unfold calculate at failed ⊢
  generalize m.advances patience = count at failed ⊢
  induction count generalizing m with
  | zero => cases failed
  | succ count ih =>
    by_cases finished : m.phase = .done
    · rw [advanceUntilDone_of_done finished] at failed
      cases failed
    · have kept := stepLimit_advance m patience
      have coherent' := coherent_advance coherent patience
      rcases advanced : m.advance patience with ⟨q | other | _, after⟩
      · rw [advanced] at kept coherent'
        rw [advanceUntilDone_of_advance finished advanced] at failed ⊢
        exact kept ▸ ih coherent' failed
      · rw [advanceUntilDone_of_failed finished advanced] at failed ⊢
        cases failed
        have answered := congrArg Prod.fst advanced
        have phase := phase_of_failed answered
        rw [advanced] at phase
        rw [phase]
        exact raises_of_advance coherent answered
      · rw [advanceUntilDone_of_unfinished finished advanced] at failed
        cases failed

end Machine

end TuringMultiplier
