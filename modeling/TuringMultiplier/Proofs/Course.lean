import TuringMultiplier.Proofs.Advance

/-! Advances in a row. A course says which phases a machine goes through and on which spans, and
counts the advances and the moves. A machine that stands at the start of a course follows it for as
long as its fuse allows, so a fault other than the fuse would have to be on the course. -/

set_option autoImplicit false

namespace TuringMultiplier

open Procedure

inductive Course : Nat → Nat → Phase → Span → Phase → Span → Prop where
  | nil {p : Phase} {a : Span} : Course 0 0 p a p a
  | cons {moves advances count : Nat} {p q r : Phase} {a b c : Span} (live : p ≠ .done)
      (ends : table.Ends moves (entry p) a q b) (rest : Course advances count q b r c) :
      Course (advances + 1) (moves + count) p a r c

namespace Course

variable {k l m n : Nat} {p q r : Phase} {a b c : Span}

theorem trans (first : Course k m p a q b) (second : Course l n q b r c) :
    Course (k + l) (m + n) p a r c := by
  induction first with
  | nil => simpa using second
  | @cons moves advances count p q r a b c live ends _ ih =>
    rw [Nat.add_right_comm advances, Nat.add_assoc moves]
    exact .cons live ends (ih second)

theorem single (live : p ≠ .done) (ends : table.Ends n (entry p) a q b) : Course 1 n p a q b :=
  .cons live ends .nil

-- A machine that is done can be advanced too.
theorem first (course : Course k n p a .done b) : ∃ moves q c l rest,
    table.Ends moves (entry p) a q c ∧ Course l rest q c .done b := by
  cases course with
  | nil => exact ⟨0, .done, a, 0, 0, Control.Path.nil.finish rfl, .nil⟩
  | cons _ ends rest => exact ⟨_, _, _, _, _, ends, rest⟩

theorem idle (live : p ≠ .done) (ends : table.Ends 0 (entry p) a q b) :
    (p = .zeroCheck ∧ q = .endMark) ∨ (p = .digitScan ∧ q = .dispatch) := by
  obtain ⟨path, turn, -⟩ := ends
  cases path
  exact entry_finish live turn

theorem advances_le (course : Course k n p a r c) :
    k ≤ 2 * n + if p = .zeroCheck ∨ p = .digitScan then 1 else 0 := by
  -- An advance without a move leads to a phase that has to move, so the 1 is passed on unspent.
  induction course with
  | nil => omega
  | @cons moves advances count p q r a b c live ends rest ih =>
    cases moves with
    | zero =>
      rcases idle live ends with ⟨rfl, rfl⟩ | ⟨rfl, rfl⟩ <;> simp at ih ⊢ <;> omega
    | succ moves =>
      split at ih <;> omega

end Course

namespace Machine

structure Stands (m : Machine) (p : Phase) (a : Span) : Prop where
  phase : m.phase = p
  shown : m.head.Shows a

variable {m : Machine} {p q : Phase} {a b : Span} {n patience : Nat}

theorem advance_of_ends (stands : m.Stands p a) (ends : table.Ends n (entry p) a q b)
    (affords : m.head.Affords patience n) :
    ∃ after, m.advance patience = (.done q, after) ∧ after.Stands q b ∧
      m.head.Reaches n b after.head := by
  obtain rfl : m.phase = p := stands.phase
  obtain ⟨last, driven, reaches⟩ := Control.drive_of_ends ends stands.shown affords
  have noted := reaches.note m.phase q
  exact ⟨_, advance_of_done driven, ⟨rfl, noted.shown⟩, noted⟩

theorem advance_of_refuses {fault : Fault} (stands : m.Stands p a)
    (refuses : table.Refuses n (entry p) a fault) (affords : m.head.Affords patience n) :
    ∃ after, m.advance patience = (.failed fault, after) ∧ after.phase = p := by
  obtain rfl : m.phase = p := stands.phase
  obtain ⟨last, driven⟩ := Control.drive_of_refuses refuses stands.shown affords
  exact ⟨_, advance_of_failed driven, rfl⟩

theorem advanceUntilDone_of_course {k count : Nat} (course : Course k n p a .done b)
    (stands : m.Stands p a) (affords : m.head.Affords patience n) (enough : k < count) :
    ∃ after, m.advanceUntilDone patience count = (.done (), after) ∧ after.Stands .done b ∧
      m.head.Reaches n b after.head := by
  generalize finish : Phase.done = r at course
  induction course generalizing m count with
  | nil =>
    subst finish
    obtain ⟨count, rfl⟩ := Nat.exists_eq_add_of_lt enough
    exact ⟨m, advanceUntilDone_of_done stands.phase, stands, .refl stands.shown⟩
  | @cons moves advances rest_moves p q r a b c live ends _ ih =>
    obtain ⟨count, rfl⟩ := Nat.exists_eq_add_of_lt enough
    obtain ⟨next, advanced, there, reaches⟩ :=
      advance_of_ends stands ends (affords.of_le (Nat.le_add_right ..))
    obtain ⟨after, done, stands_after, reaches_after⟩ :=
      @ih next (advances + 1 + count) there (reaches.affords affords) (by omega) finish
    refine ⟨after, ?_, stands_after, reaches.trans reaches_after⟩
    rw [advanceUntilDone_of_advance (stands.phase ▸ live) advanced]
    exact done

theorem calculate_of_course {k : Nat} (course : Course k n p a .done b) (stands : m.Stands p a)
    (affords : m.head.Affords patience n) :
    ∃ after, m.calculate patience = (.done (), after) ∧ after.Stands .done b ∧
      m.head.Reaches n b after.head := by
  have turns := affords.turns
  have advances := course.advances_le
  apply advanceUntilDone_of_course course stands affords
  rw [Machine.advances]
  split at advances <;> omega

theorem historyUpTo_of_course {k count : Nat} (course : Course (k + 1) n p a q b)
    (stands : m.Stands p a) (affords : m.head.Affords patience n) (enough : k < count) :
    ∃ after, (m.historyUpTo patience count)[k]? = some (.done q, after) ∧ after.Stands q b ∧
      m.head.Reaches n b after.head := by
  induction k generalizing m count n p a with
  | zero =>
    obtain ⟨count, rfl⟩ := Nat.exists_eq_add_of_lt enough
    cases course with
    | cons live ends rest =>
      cases rest
      obtain ⟨after, advanced, there, reaches⟩ := advance_of_ends stands ends affords
      refine ⟨after, ?_, there, reaches⟩
      rw [historyUpTo, if_neg (stands.phase ▸ live), advanced]
      rfl
  | succ k ih =>
    obtain ⟨count, rfl⟩ := Nat.exists_eq_add_of_lt enough
    cases course with
    | cons live ends rest =>
      obtain ⟨next, advanced, there, reaches⟩ :=
        advance_of_ends stands ends (affords.of_le (Nat.le_add_right ..))
      obtain ⟨after, found, stands_after, reaches_after⟩ :=
        ih (m := next) rest there (reaches.affords affords) (show k < k + 1 + count by omega)
      refine ⟨after, ?_, stands_after, reaches.trans reaches_after⟩
      rw [historyUpTo, if_neg (stands.phase ▸ live), advanced]
      exact found

theorem history_of_course {k : Nat} (course : Course (k + 1) n p a q b) (stands : m.Stands p a)
    (affords : m.head.Affords patience n) :
    ∃ after, (m.history patience)[k]? = some (.done q, after) ∧ after.Stands q b ∧
      m.head.Reaches n b after.head := by
  have turns := affords.turns
  have advances := course.advances_le
  apply historyUpTo_of_course course stands affords
  rw [Machine.advances]
  split at advances <;> omega

section Faults

/-- Machines that calls of `advance` lead to. A call may have failed; that it was not given enough
patience is no answer to lead on from. -/
inductive Leads (m : Machine) : Machine → Prop where
  | refl : Leads m m
  | advance {before : Machine} (patience : Nat) (leads : Leads m before)
      (answered : (before.advance patience).1 ≠ .unfinished) : Leads m (before.advance patience).2

/-- Until the fuse is blown, the machine is on a course that ends. -/
def OnCourse (m : Machine) : Prop :=
  m.head.fuse = none → ∃ k n a b, m.head.Shows a ∧ Course k n m.phase a .done b

/-- Once blown, the fuse lets an advance make one move at most, and no phase refuses before it. -/
theorem advance_of_blown {limit : Nat} {fault : Fault} (fused : m.head.stepLimit = some limit)
    (blown : limit < m.head.steps) (failed : (m.advance patience).1 = .failed fault) :
    fault = .stepLimitExceeded limit := by
  have ended : (m.advance patience).1 ≠ .unfinished := by simp [failed]
  rcases advance_spent fused patience with within | ⟨answered, -⟩
  · have grown := steps_le_advance m patience
    obtain ⟨w, q, -, answered⟩ := advance_still ended (by omega)
    rw [failed] at answered
    cases answered
  · rw [failed] at answered
    cases answered
    rfl

theorem OnCourse.advance (on : m.OnCourse) (patience : Nat) :
    (m.advance patience).1 = .unfinished ∨ ((m.advance patience).2.OnCourse ∧
      ∀ fault, (m.advance patience).1 = .failed fault →
        ∃ limit ∈ m.head.stepLimit, fault = .stepLimitExceeded limit) := by
  by_cases unblown : m.head.fuse = none
  · obtain ⟨k, n, a, b, shown, course⟩ := on unblown
    obtain ⟨moves, q, c, l, rest, ends, course⟩ := course.first
    by_cases affords : m.head.Affords patience moves
    -- The advance is made, and what is left of the course is a course of its own.
    · obtain ⟨after, advanced, there, -⟩ := advance_of_ends ⟨rfl, shown⟩ ends affords
      rw [advanced]
      refine .inr ⟨fun _ => ⟨l, rest, c, b, there.shown, there.phase ▸ course⟩, ?_⟩
      intro fault failed
      cases failed
    · obtain ⟨path, -, -⟩ := ends
      cases fused : m.head.stepLimit with
      | none =>
        left
        have short : m.head.turns patience ≤ moves := by
          simpa [Head.Affords, Head.turns, fused] using affords
        rw [outcome_advance]
        exact Control.drive_of_short_patience path shown fused short
      | some limit =>
        -- The fuse is blown on the way and stays so.
        right
        have short : limit < m.head.steps + moves := by
          simpa [Head.Affords, fused] using affords
        obtain ⟨last, driven, stepLimit, steps⟩ := Control.drive_of_short_fuse path shown fused
          (Head.fuse_eq_none_iff.mp unblown limit fused) short
        rw [advance_of_failed driven]
        refine ⟨fun unblown => ?_, ?_⟩
        · have := Head.fuse_eq_none_iff.mp unblown limit stepLimit
          simp only at this
          omega
        · intro fault failed
          cases failed
          exact ⟨limit, rfl, rfl⟩
  · obtain ⟨fault, blown⟩ := Option.ne_none_iff_exists'.mp unblown
    obtain ⟨limit, fused, blown, -⟩ := Head.fuse_eq_some_iff.mp blown
    refine .inr ⟨fun unblown => ?_, ?_⟩
    · have := Head.fuse_eq_none_iff.mp unblown limit ((stepLimit_advance m patience).trans fused)
      have := steps_le_advance m patience
      omega
    · intro fault failed
      exact ⟨limit, fused, advance_of_blown fused blown failed⟩

theorem Leads.onCourse {after : Machine} (leads : m.Leads after) (on : m.OnCourse) :
    after.OnCourse ∧ after.head.stepLimit = m.head.stepLimit := by
  induction leads with
  | refl => exact ⟨on, rfl⟩
  | advance patience _ answered ih =>
    obtain ⟨on, kept⟩ := ih
    rcases on.advance patience with unfinished | ⟨on, -⟩
    · exact absurd unfinished answered
    · exact ⟨on, (stepLimit_advance _ patience).trans kept⟩

theorem OnCourse.advanceUntilDone (on : m.OnCourse) {count : Nat} {fault : Fault}
    (failed : (m.advanceUntilDone patience count).1 = .failed fault) :
    ∃ limit ∈ m.head.stepLimit, fault = .stepLimitExceeded limit := by
  induction count generalizing m with
  | zero => cases failed
  | succ count ih =>
    by_cases finished : m.phase = .done
    · rw [advanceUntilDone_of_done finished] at failed
      cases failed
    · have kept := stepLimit_advance m patience
      have onward := on.advance patience
      rcases advanced : m.advance patience with ⟨q | other | _, after⟩ <;>
        simp only [advanced] at kept onward
      · rw [advanceUntilDone_of_advance finished advanced] at failed
        rw [← kept]
        exact ih (onward.resolve_left nofun).1 failed
      · rw [advanceUntilDone_of_failed finished advanced] at failed
        cases failed
        exact (onward.resolve_left nofun).2 fault rfl
      · rw [advanceUntilDone_of_unfinished finished advanced] at failed
        cases failed

end Faults

end Machine

end TuringMultiplier
