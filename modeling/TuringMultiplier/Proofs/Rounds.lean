import TuringMultiplier.Proofs.Batches
import TuringMultiplier.Proofs.Patience

/-! What more rounds add to a batch. Its pairs are drawn one after the other from one generator, and
each pair has a machine of its own, so a longer batch from the same seed starts with the rounds of a
shorter one. -/

set_option autoImplicit false

namespace TuringMultiplier

theorem Round.Takes.pos {first second moves : Nat} (takes : Takes first second moves) : 0 < moves := by
  obtain ⟨fresh, after, built, calculated, rfl⟩ :=
    takes 'x' (by decide) .run (moves + 1) (Nat.lt_succ_self _)
  obtain ⟨-, -, tape, -, start⟩ := Machine.ofInput_eq_ok_iff.mp built
  have loose : fresh.head.Looser 0 := by
    rw [start]
    nofun
  have spent : (fresh.withStepLimit (some 0)).Spent 0 := by
    rw [start]
    exact ⟨rfl, Nat.zero_le _, nofun⟩
  by_contra idle
  have still : (fresh.calculate (after.steps + 1)).2.head.steps ≤ 0 := by
    rw [calculated]
    exact Nat.le_of_not_lt idle
  -- Under a limit of no moves the run would be the same, but there the first move blows the fuse.
  have failed := (spent.calculate 0).2.1
  rw [Machine.calculate_uncut loose (by simp [calculated]) still, calculated] at failed
  cases failed

namespace Batch

open Round

variable {pairs : List (Nat × Nat)} {moves : Nat → Nat → Nat}

theorem mismatches_reportOf_take (stepLimit : Option Nat) (moves : Nat → Nat → Nat) (count : Nat) :
    (reportOf stepLimit moves (pairs.take count)).mismatches <+:
      (reportOf stepLimit moves pairs).mismatches :=
  ((pairs.take_prefix count).map _).filterMap _

theorem mismatches_reportOf_zero (takes : ∀ first second, Takes first second (moves first second)) :
    (reportOf (some 0) moves pairs).mismatches =
      pairs.map fun (first, second) => .ofFuse 0 first second := by
  rw [mismatches_reportOf, List.filter_eq_self.mpr]
  intro (first, second) _
  exact decide_eq_true (takes first second).pos

/-- Where the draws of a batch end, the batch is reported. -/
theorem reports_reportOf : ∃ moves : Nat → Nat → Nat,
    (∀ first second, Takes first second (moves first second)) ∧
      ∀ (patience : Nat) (config : Config) (seed : UInt64) (pairs : List (Nat × Nat)),
        Symbol.isReserved config.separator = false →
        Random.pairs patience config.rounds config.maxBits seed = some pairs →
          Reports config seed (reportOf config.stepLimit moves pairs) := by
  obtain ⟨moves, takes, -, reports⟩ := run_eq_reportOf
  refine ⟨moves, takes, ?_⟩
  intro patience config seed pairs free drawn
  -- Patience enough for every draw and for every machine without a limit.
  have ran := reports (max patience (130 ^ 4 + 1)) config seed pairs free
    (Random.pairs_of_le drawn (Nat.le_max_left ..)) fun _ => by omega
  exact reports_of_run (congrArg Prod.fst ran)

end Batch

end TuringMultiplier
