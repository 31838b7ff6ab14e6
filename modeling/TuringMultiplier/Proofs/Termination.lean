import TuringMultiplier.Proofs.Advance

/-! Calls on a machine with a fuse, in any phase and on any tape. Every call returns within the moves
that are left on the fuse and one more, and a machine that has used up its fuse never gets to the
end, however often it is called again. -/

set_option autoImplicit false

namespace TuringMultiplier.Machine

variable {m after : Machine} {q : Phase} {limit patience count : Nat}

section Returns

/-- Twice the moves that are left, and one more for a phase that may pass without a move. -/
def pending (m : Machine) (limit : Nat) : Nat :=
  2 * (limit + 1 - m.head.steps) + if m.phase = .zeroCheck ∨ m.phase = .digitScan then 1 else 0

theorem pending_advance (fused : m.head.stepLimit = some limit) (live : m.phase ≠ .done)
    (advanced : m.advance patience = (.done q, after)) : after.pending limit < m.pending limit := by
  have phase := phase_of_advance advanced
  have grown := steps_le_advance m patience
  have spent := advance_spent fused patience
  have still := @advance_still m patience
  rw [advanced] at grown spent still
  unfold pending
  rw [phase]
  by_cases same : after.head.steps = m.head.steps
  · -- Without a move the phase goes over to one that has to make a move.
    obtain ⟨w, r, turn, answered⟩ := still (by simp) same
    cases answered
    rw [same]
    rcases Procedure.entry_finish live turn with ⟨idle, rfl⟩ | ⟨idle, rfl⟩ <;> simp [idle]
  · rcases spent with within | ⟨failed, -⟩
    · dsimp only at grown within
      split <;> split <;> omega
    · cases failed

theorem advanceUntilDone_returns (fused : m.head.stepLimit = some limit)
    (enough : m.pending limit < count) : (m.advanceUntilDone patience count).1 ≠ .unfinished := by
  induction count generalizing m with
  | zero => omega
  | succ count ih =>
    rw [advanceUntilDone]
    split
    · simp
    · next live =>
      have kept := stepLimit_advance m patience
      have returns := advance_returns fused patience
      rcases advanced : m.advance patience with ⟨q | fault | _, after⟩
      · have less := pending_advance fused live advanced
        rw [advanced] at kept
        exact ih (kept.trans fused) (by omega)
      · simp
      · rw [advanced] at returns
        exact absurd rfl returns

theorem pending_lt_advances (fused : m.head.stepLimit = some limit) (patience : Nat) :
    m.pending limit < m.advances patience := by
  unfold pending advances
  simp only [Head.turns, fused]
  split <;> omega

theorem calculate_returns (fused : m.head.stepLimit = some limit) (patience : Nat) :
    (m.calculate patience).1 ≠ .unfinished :=
  advanceUntilDone_returns fused (pending_lt_advances fused patience)

theorem advanceUntilDone_spent (fused : m.head.stepLimit = some limit) (patience count : Nat) :
    (m.advanceUntilDone patience count).2.head.steps ≤ max limit m.head.steps ∨
      (m.advanceUntilDone patience count).1 = .failed (.stepLimitExceeded limit) ∧
        (m.advanceUntilDone patience count).2.head.steps = max limit m.head.steps + 1 := by
  induction count generalizing m with
  | zero => exact .inl (Nat.le_max_right ..)
  | succ count ih =>
    rw [advanceUntilDone]
    split
    · exact .inl (Nat.le_max_right ..)
    · have kept := stepLimit_advance m patience
      have grown := steps_le_advance m patience
      have spent := advance_spent fused patience
      rcases advanced : m.advance patience with ⟨q | fault | _, after⟩ <;>
        rw [advanced] at kept grown spent
      · rcases spent with within | ⟨failed, -⟩
        · have rest := ih (kept.trans fused)
          dsimp only at grown within
          rwa [show max limit after.head.steps = max limit m.head.steps by omega] at rest
        · cases failed
      · simpa using spent
      · simpa using spent

theorem steps_of_exceeded (fused : m.head.stepLimit = some limit) (start : m.head.steps ≤ limit)
    (failed : (m.advanceUntilDone patience count).1 = .failed (.stepLimitExceeded limit)) :
    (m.advanceUntilDone patience count).2.head.steps = limit + 1 := by
  have beyond := (advanceUntilDone_exceeded failed).2
  rcases advanceUntilDone_spent fused patience count with within | ⟨-, steps⟩ <;> omega

theorem advance_within (fused : m.head.stepLimit = some limit) (patience : Nat) :
    (m.advance patience).2.head.steps ≤ m.head.steps + (limit - m.head.steps + 1) := by
  rcases advance_spent fused patience with within | ⟨-, steps⟩ <;> omega

theorem calculate_within (fused : m.head.stepLimit = some limit) (patience : Nat) :
    (m.calculate patience).2.head.steps ≤ m.head.steps + (limit - m.head.steps + 1) := by
  rw [calculate]
  rcases advanceUntilDone_spent fused patience (m.advances patience) with within | ⟨-, steps⟩ <;>
    omega

end Returns

section Spent

structure Spent (m : Machine) (limit : Nat) : Prop where
  fused : m.head.stepLimit = some limit
  used : limit ≤ m.head.steps
  live : m.phase ≠ .done

/-- Either a phase passes without a move, or the one move is made that blows the fuse. -/
theorem Spent.advance (spent : m.Spent limit) (patience : Nat) :
    (m.advance patience).2.Spent limit ∧
      ((∃ q, (m.advance patience).1 = .done q) ∧
          (m.advance patience).2.head.steps = m.head.steps ∨
        (m.advance patience).1 = .failed (.stepLimitExceeded limit) ∧
          (m.advance patience).2.head.steps = m.head.steps + 1) := by
  obtain ⟨fused, used, live⟩ := spent
  have kept := (stepLimit_advance m patience).trans fused
  have grown := steps_le_advance m patience
  have returns := advance_returns fused patience
  rcases advance_spent fused patience with within | ⟨failed, steps⟩
  · rw [Nat.max_eq_right used] at within
    have still := Nat.le_antisymm within grown
    obtain ⟨w, q, turn, answered⟩ := advance_still returns still
    have phase : (m.advance patience).2.phase = q :=
      phase_of_advance (Prod.ext answered rfl)
    refine ⟨⟨kept, still ▸ used, ?_⟩, .inl ⟨⟨q, answered⟩, still⟩⟩
    rw [phase]
    rcases Procedure.entry_finish live turn with ⟨-, rfl⟩ | ⟨-, rfl⟩ <;> decide
  · rw [Nat.max_eq_right used] at steps
    refine ⟨⟨kept, Nat.le_trans used grown, ?_⟩, .inr ⟨failed, steps⟩⟩
    rwa [phase_of_failed failed]

theorem Spent.advanceUntilDone (spent : m.Spent limit) (patience count : Nat) :
    (m.advanceUntilDone patience count).2.Spent limit ∧
      ((m.advanceUntilDone patience count).1 = .unfinished ∨
        (m.advanceUntilDone patience count).1 = .failed (.stepLimitExceeded limit) ∧
          (m.advanceUntilDone patience count).2.head.steps = m.head.steps + 1) := by
  induction count generalizing m with
  | zero => exact ⟨spent, .inl rfl⟩
  | succ count ih =>
    rw [Machine.advanceUntilDone, if_neg spent.live]
    obtain ⟨there, passed⟩ := spent.advance patience
    rcases advanced : m.advance patience with ⟨q | fault | _, after⟩ <;>
      rw [advanced] at there passed
    · rcases passed with ⟨-, still⟩ | ⟨failed, -⟩
      · have rest := ih there
        rwa [still] at rest
      · cases failed
    · rcases passed with ⟨⟨q, answered⟩, -⟩ | ⟨failed, steps⟩
      · cases answered
      · cases failed
        exact ⟨there, .inr ⟨rfl, steps⟩⟩
    · rcases passed with ⟨⟨q, answered⟩, -⟩ | ⟨failed, -⟩
      · cases answered
      · cases failed

theorem Spent.calculate (spent : m.Spent limit) (patience : Nat) :
    (m.calculate patience).2.Spent limit ∧
      (m.calculate patience).1 = .failed (.stepLimitExceeded limit) ∧
        (m.calculate patience).2.head.steps = m.head.steps + 1 := by
  obtain ⟨there, ended⟩ := spent.advanceUntilDone patience (m.advances patience)
  exact ⟨there, ended.resolve_left (calculate_returns spent.fused patience)⟩

inductive Call where
  | advance
  | calculate
  deriving DecidableEq, Repr

def call (patience : Nat) (m : Machine) : Call → Machine
  | .advance => (m.advance patience).2
  | .calculate => (m.calculate patience).2

theorem Spent.calls (spent : m.Spent limit) (patience : Nat) (calls : List Call) :
    (calls.foldl (call patience) m).Spent limit := by
  induction calls generalizing m with
  | nil => exact spent
  | cons first rest ih =>
    cases first with
    | advance => exact ih (spent.advance patience).1
    | calculate => exact ih (spent.calculate patience).1

end Spent

/-- With a fuse every call returns, after at most the moves that are left and one more. Once there is
no move left, every call makes at most the one move that blows the fuse, and no number of calls gets
the machine to the end. -/
theorem calls_of_fuse (fused : m.head.stepLimit = some limit) (patience : Nat) :
    ((m.advance patience).1 ≠ .unfinished ∧
        (m.advance patience).2.steps ≤ m.steps + (limit - m.steps + 1)) ∧
      ((m.calculate patience).1 ≠ .unfinished ∧
        (m.calculate patience).2.steps ≤ m.steps + (limit - m.steps + 1)) ∧
      (limit ≤ m.steps → m.phase ≠ .done → ∀ calls : List Call,
        (calls.foldl (call patience) m).phase ≠ .done ∧
          ((calls.foldl (call patience) m).advance patience).2.steps ≤
            (calls.foldl (call patience) m).steps + 1 ∧
          ((calls.foldl (call patience) m).calculate patience).1 =
            .failed (.stepLimitExceeded limit) ∧
          ((calls.foldl (call patience) m).calculate patience).2.steps =
            (calls.foldl (call patience) m).steps + 1) := by
  refine ⟨⟨advance_returns fused patience, advance_within fused patience⟩,
    ⟨calculate_returns fused patience, calculate_within fused patience⟩, ?_⟩
  intro used live calls
  have spent := Spent.calls ⟨fused, used, live⟩ patience calls
  obtain ⟨-, failed, steps⟩ := spent.calculate patience
  refine ⟨spent.live, ?_, failed, steps⟩
  unfold Machine.steps
  rcases (spent.advance patience).2 with ⟨-, still⟩ | ⟨-, steps⟩ <;> omega

/-- A machine on a tape that no input leads to, with a fuse that allows no move. -/
theorem calls_of_fuse_stray : ∃ m : Machine, m.head.stepLimit = some 0 ∧ m.phase = .digitScan ∧
    (m.advance 0).1 ≠ .unfinished ∧ (m.calculate 0).1 = .failed (.stepLimitExceeded 0) ∧
    (m.calculate 0).2.steps = 1 ∧
    ([Call.calculate, .advance].foldl (call 0) m).phase ≠ .done := by
  obtain ⟨⟨returns, -⟩, -, stuck⟩ := calls_of_fuse
    (m := ⟨.ofTape ⟨#[.delimiter, .tenner], 'x'⟩ (some 0) .run, .digitScan⟩) rfl 0
  have stuck := stuck (Nat.le_refl 0) (by decide)
  obtain ⟨-, -, failed, steps⟩ := stuck []
  exact ⟨_, rfl, rfl, returns, failed, steps, (stuck [.calculate, .advance]).1⟩

end TuringMultiplier.Machine
