import TuringMultiplier.Proofs.Batches
import TuringMultiplier.Proofs.Replies

/-! What the command line replies to a request for a batch. The limit is too tight for some of the
pairs, and these are what both forms of a batch count and what its exit status is about. -/

set_option autoImplicit false

namespace TuringMultiplier

variable {limit : Nat} {moves : Nat → Nat → Nat} {pairs : List (Nat × Nat)}

namespace Batch

section Counts

def exceeding (limit : Nat) (moves : Nat → Nat → Nat) (pairs : List (Nat × Nat)) :
    List (Nat × Nat) :=
  pairs.filter fun (first, second) => limit ≠ 0 ∧ limit < moves first second

/-- The moves of all machines together. One that is stopped makes one move more than the limit. -/
def spending (limit : Nat) (moves : Nat → Nat → Nat) (pairs : List (Nat × Nat)) : Nat :=
  (pairs.map fun (first, second) =>
    if limit = 0 then moves first second else min (moves first second) (limit + 1)).sum

theorem exceeding_eq_nil_iff : exceeding limit moves pairs = [] ↔
    limit = 0 ∨ ∀ pair ∈ pairs, moves pair.1 pair.2 ≤ limit := by
  simp only [exceeding, List.filter_eq_nil_iff, decide_eq_true_eq, not_and_or, Nat.not_lt, ne_eq,
    not_not]
  constructor
  · intro each
    by_cases unlimited : limit = 0
    · exact .inl unlimited
    · exact .inr fun pair member => (each pair member).resolve_left unlimited
  · rintro (unlimited | within) pair member
    · exact .inl unlimited
    · exact .inr (within pair member)

theorem reportOf_limit (limit : Nat) (moves : Nat → Nat → Nat) (pairs : List (Nat × Nat)) :
    reportOf (if limit = 0 then none else some limit) moves pairs =
      ⟨pairs.length, spending limit moves pairs,
        (exceeding limit moves pairs).map fun (first, second) => .ofFuse limit first second⟩ := by
  by_cases unlimited : limit = 0
  · obtain ⟨clean, total⟩ := reportOf_none moves pairs
    have nothing : exceeding limit moves pairs = [] := exceeding_eq_nil_iff.mpr (.inl unlimited)
    have everything : spending limit moves pairs =
        (pairs.map fun (first, second) => moves first second).sum := by
      simp only [spending, if_pos unlimited]
    rw [if_pos unlimited, nothing, everything, ← total, List.map_nil,
      ← List.isEmpty_iff.mp clean, ← rounds_reportOf none]
  · have some_pairs : exceeding limit moves pairs =
        pairs.filter fun (first, second) => limit < moves first second := by
      simp only [exceeding, ne_eq, unlimited, not_false_eq_true, true_and]
    have fewer : spending limit moves pairs =
        (reportOf (some limit) moves pairs).totalSteps := by
      simp only [spending, if_neg unlimited, totalSteps_reportOf, steps_settled]
    rw [if_neg unlimited, some_pairs, fewer, ← mismatches_reportOf, ← rounds_reportOf (some limit)]

end Counts

end Batch

namespace CommandLine

open Batch

section Batches

variable {a : Arguments} {log : Log} {rounds : Nat} {reply : Reply}

def warnings (log : Log) (limit : Nat) (moves : Nat → Nat → Nat) (pairs : List (Nat × Nat)) :
    List String :=
  log.lines ((exceeding limit moves pairs).map fun (first, second) =>
    .batch (.mismatch (.ofFuse limit first second)))

structure AnswersBatch (log : Log) (a : Arguments) (rounds limit : Nat) (moves : Nat → Nat → Nat)
    (pairs : List (Nat × Nat)) (reply : Reply) : Prop where
  fails_iff : reply.status = 1 ↔ 0 < limit ∧ ∃ pair ∈ pairs, limit < moves pair.1 pair.2
  succeeds : reply.status ≠ 1 → reply.status = 0
  /-- Beyond this limit there is no pair of 64 bits. -/
  wide : limit = 0 ∨ 2 ^ 32 ≤ limit → reply.status = 0
  fits : spending limit moves pairs < 2 ^ 64
  logged : if log.verbosity = .off then warnings log limit moves pairs = []
    else (warnings log limit moves pairs).length = (exceeding limit moves pairs).length
  checked : a.benchmark = false →
    reply.stdout = "rounds,total_steps,mismatches\n" ++ toString rounds ++ "," ++
        toString (spending limit moves pairs) ++ "," ++
        toString (exceeding limit moves pairs).length ++ "\n" ∧
      reply.stderr = Reply.lines (warnings log limit moves pairs ++
        (exceeding limit moves pairs).map fun (first, second) =>
          Numeral.text first ++ " x " ++ Numeral.text second ++ ": step limit of " ++
            toString limit ++ " moves exceeded") ∧
      reply.timed = none
  benchmarked : a.benchmark = true → reply.stdout = "" ∧
    reply.stderr = Reply.lines (warnings log limit moves pairs) ++ "Benchmark results:\n" ++
      "  Rounds:            " ++ toString rounds ++ "\n" ++
      "  Max factor bits:   " ++ toString (a.maxBits.getD 12) ++ "\n" ++
      "  Total moves:       " ++ toString (spending limit moves pairs) ++ "\n" ++
      "  Mismatches:        " ++ toString (exceeding limit moves pairs).length ++ "\n" ∧
    ∃ report, reply.timed = some report ∧ report.rounds = rounds ∧
      report.totalSteps = spending limit moves pairs ∧
      report.mismatches.length = (exceeding limit moves pairs).length

def answer (a : Arguments) (rounds : Nat) : List String → Report → Reply :=
  if a.benchmark then .ofBenchmark (a.batch rounds) else .ofCheck

section Warnings

theorem warnings_eq (log : Log) (limit : Nat) (moves : Nat → Nat → Nat)
    (pairs : List (Nat × Nat)) :
    log.lines ((reportOf (if limit = 0 then none else some limit) moves pairs).events.map .batch) =
      warnings log limit moves pairs := by
  rw [Report.events, List.map_append, List.map_singleton,
    Log.lines_append_of_hidden _ (Log.shows_debug _), reportOf_limit, List.map_map, List.map_map]
  rfl

theorem warnings_logged (log : Log) (limit : Nat) (moves : Nat → Nat → Nat)
    (pairs : List (Nat × Nat)) :
    if log.verbosity = .off then warnings log limit moves pairs = []
    else (warnings log limit moves pairs).length = (exceeding limit moves pairs).length := by
  split
  · next off =>
    apply Log.lines_of_hidden
    intro record _
    rw [off]
    rfl
  · next heard =>
    rw [warnings, Log.length_lines_of_shown, List.length_map]
    intro record member
    obtain ⟨pair, -, rfl⟩ := List.mem_map.mp member
    cases verbosity : log.verbosity with
    | off => exact absurd verbosity heard
    | warn | info => rfl

end Warnings

theorem mismatchLine_ofFuse (limit first second : Nat) :
    Reply.mismatchLine (.ofFuse limit first second) = Numeral.text first ++ " x " ++
      Numeral.text second ++ ": step limit of " ++ toString limit ++ " moves exceeded" := by
  have line : Reply.mismatchLine (.ofFuse limit first second) = Numeral.text first ++ " x " ++
    Numeral.text second ++ ": " ++ ("step limit of " ++ toString limit ++ " moves exceeded") := rfl
  rw [line]
  simp only [String.append_assoc]
  rfl

theorem status_answer (logged : List String) (report : Report) :
    (answer a rounds logged report).status = if report.mismatches = [] then 0 else 1 := by
  have status : (answer a rounds logged report).status = Reply.batchStatus report := by
    unfold answer
    split <;> rfl
  simp only [status, Reply.batchStatus, Report.isClean, List.isEmpty_iff]

theorem answers_batch (length : pairs.length = rounds) (few : rounds < 2 ^ 35)
    (small : ∀ pair ∈ pairs, moves pair.1 pair.2 ≤ 130 ^ 4) :
    AnswersBatch log a rounds limit moves pairs (answer a rounds (warnings log limit moves pairs)
      (reportOf (if limit = 0 then none else some limit) moves pairs)) := by
  have total := totalSteps_le (if limit = 0 then none else some limit) small
  rw [reportOf_limit, length] at total ⊢
  have status := @status_answer a rounds (warnings log limit moves pairs) ⟨rounds,
    spending limit moves pairs,
    (exceeding limit moves pairs).map fun (first, second) => .ofFuse limit first second⟩
  simp only [List.map_eq_nil_iff, exceeding_eq_nil_iff] at status
  refine ⟨?_, ?_, ?_, ?_, warnings_logged .., ?_, ?_⟩
  · rw [status]
    split
    · next tolerant =>
      refine iff_of_false Nat.zero_ne_one ?_
      rintro ⟨limited, pair, member, passed⟩
      rcases tolerant with unlimited | within
      · exact limited.ne' unlimited
      · exact Nat.not_lt_of_le (within pair member) passed
    · next strict =>
      refine iff_of_true rfl ?_
      push Not at strict
      exact ⟨Nat.pos_of_ne_zero strict.1, strict.2⟩
  · rw [status]
    split <;> simp
  · intro wide
    rw [status, if_pos]
    refine wide.imp_right fun wide pair member => (small pair member).trans (le_trans ?_ wide)
    decide
  · have size : rounds * 130 ^ 4 ≤ 2 ^ 35 * 130 ^ 4 := Nat.mul_le_mul_right _ few.le
    simp only at total
    omega
  · intro check
    simp only [answer, check, Bool.false_eq_true, if_false, Reply.ofCheck, lines_cons]
    refine ⟨?_, ?_, trivial⟩
    · simp only [String.append_assoc, List.length_map]
      rfl
    · rw [List.map_map]
      exact congrArg (fun own => Reply.lines (_ ++ own))
        (List.map_congr_left fun pair _ => mismatchLine_ofFuse limit pair.1 pair.2)
  · intro benchmark
    simp only [answer, benchmark, if_true, Reply.ofBenchmark, lines_append, lines_cons]
    refine ⟨trivial, ?_, _, rfl, rfl, rfl, List.length_map _⟩
    simp only [String.append_assoc, List.length_map]
    rfl

theorem request_rounds (absent : a.input = none) (random : a.random = some rounds) :
    ∃ asked, a.request = .ok asked ∧ ∀ log patience, asked.reply log patience =
      Reply.ofBatch log (answer a rounds)
        (run patience (a.batch rounds) (a.seed.getD 0).toUInt64) := by
  simp only [Arguments.request, absent, random]
  refine ⟨_, rfl, fun log patience => ?_⟩
  unfold answer
  cases form : a.benchmark <;> rfl

end Batches

end CommandLine

end TuringMultiplier
