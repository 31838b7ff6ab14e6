import Mathlib.Algebra.Order.BigOperators.Group.List
import TuringMultiplier.Proofs.Draws
import TuringMultiplier.Proofs.Fuse

/-! What a batch reports. A machine of a batch either multiplies or blows its fuse, so a mismatch is a
pair whose multiplication takes more moves than the limit, and never a wrong tape. -/

set_option autoImplicit false

namespace TuringMultiplier

open Numeral

variable {patience first second moves limit : Nat}

def Mismatch.ofFuse (limit first second : Nat) : Mismatch where
  first := first
  second := second
  expected := Numeral.text (first * second)
  outcome := .error (.stepLimitExceeded limit)

namespace Machine

/-- Without a limit, a machine on this input is done after so many moves. -/
def Takes (text : String) (separator : Char) (moves : Nat) : Prop :=
  ∀ mode, ∀ patience > moves, ∃ fresh after,
    ofInput text ⟨separator, mode, none⟩ = .ok fresh ∧
      fresh.calculate patience = (.done (), after) ∧ after.steps = moves

theorem Takes.unique {text : String} {separator : Char} {other : Nat}
    (takes : Takes text separator moves) (takes' : Takes text separator other) : moves = other := by
  obtain ⟨fresh, after, built, calculated, rfl⟩ := takes .run (max moves other + 1) (by omega)
  obtain ⟨fresh', after', built', calculated', rfl⟩ := takes' .run (max after.steps other + 1)
    (by omega)
  cases built.symm.trans built'
  cases calculated.symm.trans calculated'
  rfl

end Machine

namespace Round

def Takes (first second moves : Nat) : Prop :=
  ∀ separator, Symbol.isReserved separator = false →
    Machine.Takes (inputText (digits first) (digits second) separator) separator moves

def settled (stepLimit : Option Nat) (first second moves : Nat) : Round :=
  match stepLimit with
  | some limit =>
    if limit < moves then ⟨limit + 1, some (.ofFuse limit first second)⟩ else ⟨moves, none⟩
  | none => ⟨moves, none⟩

section Run

variable {config : Machine.Config} {fresh after : Machine} {fault : Fault}

theorem run_of_product
    (built : Machine.ofInput (input first second config.separator) config = .ok fresh)
    (calculated : fresh.calculate patience = (.done (), after))
    (content : after.content = Numeral.text (first * second)) :
    run patience first second config = some ⟨after.steps, none⟩ := by
  rw [run, built]
  simp only [calculated, judge, if_pos content]

theorem run_of_failed
    (built : Machine.ofInput (input first second config.separator) config = .ok fresh)
    (calculated : fresh.calculate patience = (.failed fault, after)) :
    run patience first second config = some (judge first second after.steps (.error fault)) := by
  rw [run, built]
  simp only [calculated]

end Run

/-- Whatever two numbers a round is about, the limit alone decides how it ends. -/
theorem run_eq_settled (first second : Nat) :
    ∃ moves ≤ ((digits first).length + (digits second).length + 2) ^ 4, Takes first second moves ∧
      ∀ config : Machine.Config, Symbol.isReserved config.separator = false → ∀ patience,
        (config.stepLimit = none → moves < patience) →
          run patience first second config = some (settled config.stepLimit first second moves) := by
  obtain ⟨moves, bound, multiplies⟩ :=
    Machine.calculate_inputText (digits_ne_nil first) (digits_ne_nil second)
  simp only [value_digits] at multiplies
  have product : ∀ config : Machine.Config, Symbol.isReserved config.separator = false →
      ∀ patience, config.Allows patience moves →
        run patience first second config = some ⟨moves, none⟩ := by
    intro config free patience allows
    obtain ⟨fresh, after, built, calculated, stands, steps⟩ := multiplies config free patience allows
    obtain ⟨content, -⟩ := stands.content (digits_ne_nil _)
    rw [← Machine.input_eq_inputText] at built
    rw [run_of_product built calculated content, steps]
  refine ⟨moves, bound, ?_, ?_⟩
  · intro separator free mode patience patient
    obtain ⟨fresh, after, built, calculated, -, steps⟩ :=
      multiplies ⟨separator, mode, none⟩ free patience patient
    exact ⟨fresh, after, built, calculated, steps⟩
  · rintro ⟨separator, mode, _ | limit⟩ free patience patient
    · exact product _ free patience (patient rfl)
    · by_cases passed : limit < moves
      · -- The machine without a limit makes more moves, so the fuse blows on the way.
        obtain ⟨unlimited, after, built, calculated, -, steps⟩ :=
          multiplies ⟨separator, mode, none⟩ free (moves + 1) (Nat.lt_succ_self moves)
        obtain ⟨limited, short, built, failed, spent⟩ :=
          @Machine.calculate_of_passed limit (moves + 1) _ ⟨separator, mode, none⟩ unlimited after
            built calculated (steps ▸ passed) patience
        rw [← Machine.input_eq_inputText] at built
        rw [run_of_failed built failed, spent, settled]
        simp only [if_pos passed]
        rfl
      · rw [settled]
        simp only [if_neg passed]
        exact product _ free patience (Nat.le_of_not_lt passed)

theorem Takes.eq_of_run {steps : Nat} (takes : Takes first second moves)
    (ran : (run patience first second { stepLimit := some limit }).map Round.steps = some steps)
    (within : steps ≤ limit) : moves = steps := by
  obtain ⟨other, -, known, settles⟩ := run_eq_settled first second
  have free : Symbol.isReserved 'x' = false := by decide
  obtain rfl : moves = other := (takes 'x' free).unique (known 'x' free)
  rw [settles { stepLimit := some limit } free patience nofun, Option.map_some, Option.some_inj,
    settled] at ran
  split at ran <;> simp only at ran <;> omega

end Round

namespace Batch

open Round

variable {config : Config} {seed : UInt64} {pairs : List (Nat × Nat)}

section Rounds

variable {α β : Type}

theorem mapM_eq_some_map {f : α → Option β} {g : α → β} {row : List α}
    (each : ∀ a ∈ row, f a = some (g a)) : row.mapM f = some (row.map g) := by
  induction row with
  | nil => rfl
  | cons a row ih =>
    obtain ⟨now, later⟩ := List.forall_mem_cons.mp each
    rw [List.mapM_cons, now, ih later]
    rfl

theorem run_of_rounds {round : Nat × Nat → Round}
    (free : Symbol.isReserved config.separator = false)
    (drawn : Random.pairs patience config.rounds config.maxBits seed = some pairs)
    (each : ∀ pair ∈ pairs,
      Round.run patience pair.1 pair.2 config.machine = some (round pair)) :
    run patience config seed = (.done (.ofRounds (pairs.map round)), events (pairs.map round)) := by
  have rounds := mapM_eq_some_map each
  simp only [run, free, drawn, Option.bind_eq_bind, Option.bind_some, rounds, Bool.false_eq_true,
    if_false]

end Rounds

def Report.events (report : Report) : List Event :=
  report.mismatches.map .mismatch ++
    [.finished report.rounds report.totalSteps report.mismatches.length]

theorem events_eq (rounds : List Round) : events rounds = (Report.ofRounds rounds).events := by
  rw [events, Report.events, Report.ofRounds, List.map_filterMap]

section Reports

variable {moves : Nat → Nat → Nat}

def reportOf (stepLimit : Option Nat) (moves : Nat → Nat → Nat) (pairs : List (Nat × Nat)) : Report :=
  .ofRounds (pairs.map fun (first, second) => settled stepLimit first second (moves first second))

theorem rounds_reportOf (stepLimit : Option Nat) :
    (reportOf stepLimit moves pairs).rounds = pairs.length := List.length_map _

theorem totalSteps_reportOf (stepLimit : Option Nat) :
    (reportOf stepLimit moves pairs).totalSteps = (pairs.map fun (first, second) =>
      (settled stepLimit first second (moves first second)).steps).sum := by
  simp only [reportOf, Report.ofRounds, List.map_map, ← List.sum_eq_foldl]
  rfl

theorem steps_settled (limit first second moves : Nat) :
    (settled (some limit) first second moves).steps = min moves (limit + 1) := by
  rw [settled]
  split <;> simp only <;> omega

theorem mismatches_reportOf (limit : Nat) :
    (reportOf (some limit) moves pairs).mismatches =
      (pairs.filter fun (first, second) => limit < moves first second).map
        fun (first, second) => .ofFuse limit first second := by
  rw [← List.filterMap_eq_map, List.filterMap_filter, reportOf, Report.ofRounds,
    List.filterMap_map]
  apply List.filterMap_congr
  intro ⟨first, second⟩ _
  simp only [Function.comp, settled, decide_eq_true_eq]
  split <;> rfl

theorem reportOf_of_le {stepLimit : Option Nat}
    (within : ∀ limit ∈ stepLimit, ∀ pair ∈ pairs, moves pair.1 pair.2 ≤ limit) :
    reportOf stepLimit moves pairs = reportOf none moves pairs := by
  cases stepLimit with
  | none => rfl
  | some limit =>
    unfold reportOf
    congr 1
    apply List.map_congr_left
    intro pair drawn
    simp only [settled]
    rw [if_neg (Nat.not_lt_of_le (within limit rfl pair drawn))]

theorem reportOf_none (moves : Nat → Nat → Nat) (pairs : List (Nat × Nat)) :
    (reportOf none moves pairs).isClean ∧
      (reportOf none moves pairs).totalSteps =
        (pairs.map fun (first, second) => moves first second).sum := by
  refine ⟨?_, totalSteps_reportOf none⟩
  simp [reportOf, Report.isClean, Report.ofRounds, settled]

theorem totalSteps_le {bound : Nat} (stepLimit : Option Nat)
    (small : ∀ pair ∈ pairs, moves pair.1 pair.2 ≤ bound) :
    (reportOf stepLimit moves pairs).totalSteps ≤ pairs.length * bound := by
  have each : ∀ pair ∈ pairs,
      (settled stepLimit pair.1 pair.2 (moves pair.1 pair.2)).steps ≤ bound := by
    intro pair drawn
    have := small pair drawn
    cases stepLimit with
    | none => exact this
    | some limit =>
      rw [steps_settled]
      omega
  rw [totalSteps_reportOf]
  simpa using List.sum_le_card_nsmul _ bound (List.forall_mem_map.mpr each)

end Reports

theorem run_eq_reportOf : ∃ moves : Nat → Nat → Nat,
    (∀ first second, Takes first second (moves first second)) ∧
      (∀ {patience rounds maxBits : Nat} {seed : UInt64} {pairs : List (Nat × Nat)},
        Random.pairs patience rounds maxBits seed = some pairs →
          ∀ pair ∈ pairs, moves pair.1 pair.2 ≤ 130 ^ 4) ∧
      ∀ (patience : Nat) (config : Config) (seed : UInt64) (pairs : List (Nat × Nat)),
        Symbol.isReserved config.separator = false →
        Random.pairs patience config.rounds config.maxBits seed = some pairs →
        (config.stepLimit = none → 130 ^ 4 < patience) →
          run patience config seed = (.done (reportOf config.stepLimit moves pairs),
            (reportOf config.stepLimit moves pairs).events) := by
  choose moves bound takes settles using run_eq_settled
  have small {patience rounds maxBits : Nat} {seed : UInt64} {pairs : List (Nat × Nat)}
      (drawn : Random.pairs patience rounds maxBits seed = some pairs) :
      ∀ pair ∈ pairs, moves pair.1 pair.2 ≤ 130 ^ 4 := by
    intro pair member
    obtain ⟨narrow, narrow'⟩ := Random.lt_of_pairs drawn pair member
    have short : (digits pair.1).length ≤ 64 := digits_length_le narrow (by decide)
    have short' : (digits pair.2).length ≤ 64 := digits_length_le narrow' (by decide)
    have widths : (digits pair.1).length + (digits pair.2).length + 2 ≤ 130 := by omega
    exact (bound pair.1 pair.2).trans (Nat.pow_le_pow_left widths 4)
  refine ⟨moves, takes, small, ?_⟩
  intro patience config seed pairs free drawn patient
  rw [reportOf, ← events_eq]
  apply run_of_rounds free drawn
  intro pair member
  refine settles pair.1 pair.2 config.machine free patience fun unlimited => ?_
  exact Nat.lt_of_le_of_lt (small drawn pair member) (patient unlimited)

/-- Every batch with a separator of its own is reported in full: what is found is what its limit was
too tight for, in the order of the pairs, and the moves of the machines that were stopped count up to
the one too many. Their sum fits a word of 64 bits. -/
theorem run_report : ∃ moves : Nat → Nat → Nat,
    (∀ first second, Takes first second (moves first second)) ∧
      ∀ (patience : Nat) (config : Config) (seed : UInt64),
        (Symbol.isReserved config.separator = false → config.rounds < 2 ^ 35 →
          (config.stepLimit = none → 2 ^ 32 ≤ patience) → ∀ pairs,
            Random.pairs patience config.rounds config.maxBits seed = some pairs → ∃ report,
              run patience config seed = (.done report, report.mismatches.map .mismatch ++
                  [.finished report.rounds report.totalSteps report.mismatches.length]) ∧
                report.rounds = pairs.length ∧ report.totalSteps < 2 ^ 64 ∧
                (∀ limit ∈ config.stepLimit,
                  report.mismatches =
                      (pairs.filter fun (first, second) => limit < moves first second).map
                        (fun (first, second) => .ofFuse limit first second) ∧
                    report.totalSteps = (pairs.map fun (first, second) =>
                      min (moves first second) (limit + 1)).sum) ∧
                ((∀ limit ∈ config.stepLimit, 2 ^ 32 ≤ limit) → report.isClean ∧
                  report.totalSteps =
                    (pairs.map fun (first, second) => moves first second).sum)) ∧
        (Symbol.isReserved config.separator →
          run patience config seed = (.failed (.reservedDelimiter config.separator), [])) := by
  obtain ⟨moves, takes, bound, reports⟩ := run_eq_reportOf
  refine ⟨moves, takes, ?_⟩
  intro patience config seed
  constructor
  · intro free few patient pairs drawn
    obtain ⟨rounds, -⟩ := Random.pairs_spec drawn
    have ran := reports patience config seed pairs free drawn
      fun unlimited => Nat.lt_of_lt_of_le (by decide) (patient unlimited)
    refine ⟨_, ran, rounds_reportOf _, ?_, ?_, ?_⟩
    · have total := totalSteps_le config.stepLimit (bound drawn)
      have size : pairs.length * 130 ^ 4 ≤ 2 ^ 35 * 130 ^ 4 :=
        Nat.mul_le_mul_right _ (rounds ▸ few.le)
      omega
    · intro limit limited
      rw [Option.mem_def.mp limited]
      refine ⟨mismatches_reportOf limit, ?_⟩
      simp only [totalSteps_reportOf, steps_settled]
    · intro wide
      rw [reportOf_of_le fun limit limited pair member => ?_]
      · exact reportOf_none moves pairs
      · exact (bound drawn pair member).trans (le_trans (by decide) (wide limit limited))
  · intro reserved
    exact if_pos reserved

/-- Three pairs with a limit that is too tight for one of them and without a limit, and a letter of
the tape as the separator. -/
theorem run_report_three_pairs :
    run 1000 { rounds := 3, maxBits := 2, stepLimit := some 20 } 7 =
        (.done ⟨3, 31, [.ofFuse 20 1 1]⟩, [.mismatch (.ofFuse 20 1 1), .finished 3 31 1]) ∧
      (∃ report events, run (2 ^ 32) { rounds := 3, maxBits := 2, stepLimit := none } 7 =
        (.done report, events) ∧ report.rounds = 3 ∧ report.isClean) ∧
      run 1000 { separator := 'y' } 7 = (.failed (.reservedDelimiter 'y'), []) := by
  obtain ⟨moves, takes, reports⟩ := run_report
  have drawn : Random.pairs 1000 3 2 7 = some [(0, 1), (1, 1), (0, 1)] := by decide +kernel
  have drawn' : Random.pairs (2 ^ 32) 3 2 7 = some [(0, 1), (1, 1), (0, 1)] := by decide +kernel
  refine ⟨?_, ?_, (reports 1000 { separator := 'y' } 7).2 (by decide)⟩
  · have few : (Round.run 0 0 1 { stepLimit := some 99 }).map Round.steps = some 5 := by
      decide +kernel
    have many : (Round.run 0 1 1 { stepLimit := some 99 }).map Round.steps = some 56 := by
      decide +kernel
    obtain ⟨⟨rounds, total, mismatches⟩, ran, length, -, limited, -⟩ :=
      (reports 1000 { rounds := 3, maxBits := 2, stepLimit := some 20 } 7).1 (by decide) (by decide)
        nofun _ drawn
    obtain ⟨found, spent⟩ := limited 20 rfl
    have short := (takes 0 1).eq_of_run few (by decide)
    have long := (takes 1 1).eq_of_run many (by decide)
    obtain rfl : rounds = 3 := length
    obtain rfl : total = 31 := by simpa [short, long] using spent
    obtain rfl : mismatches = [.ofFuse 20 1 1] := by simpa [short, long] using found
    exact ran
  · obtain ⟨report, ran, rounds, -, -, unlimited⟩ :=
      (reports (2 ^ 32) { rounds := 3, maxBits := 2, stepLimit := none } 7).1 (by decide)
        (by decide) (fun _ => le_rfl) _ drawn'
    exact ⟨report, _, ran, rounds, (unlimited nofun).1⟩

end Batch

end TuringMultiplier
