import TuringMultiplier.Proofs.Acceptance
import TuringMultiplier.Proofs.Batches
import TuringMultiplier.Proofs.Observation
import TuringMultiplier.Proofs.Patience

/-! What the command line replies to a request for one product. The input is malformed, or its
separator is reserved, or the limit stops the machine, or the product is printed, and which of the
four it is depends neither on what is noted nor on what is shown. -/

set_option autoImplicit false

namespace TuringMultiplier

open Numeral

variable {text : String} {separator : Char} {moves limit : Nat}

namespace Machine

variable {m : Machine} {config : Config}

section Limits

theorem Takes.accepted (takes : Takes text separator moves) :
    Symbol.isReserved separator = false ∧ Accepted separator text.toList := by
  obtain ⟨fresh, after, built, -⟩ := takes .run (moves + 1) (Nat.lt_succ_self _)
  obtain ⟨free, accepted, -⟩ := ofInput_eq_ok_iff.mp built
  exact ⟨free, accepts_iff.mp accepted⟩

/-- A machine that is allowed the moves makes just as many and leaves the product. -/
theorem takes_inputText {first second : List Bool} (nonempty : first ≠ []) (nonempty' : second ≠ [])
    (free : Symbol.isReserved separator = false) :
    ∃ moves, Takes (inputText first second separator) separator moves ∧
      ∀ mode stepLimit patience, Config.Allows ⟨separator, mode, stepLimit⟩ patience moves →
        ∃ fresh after, ofInput (inputText first second separator) ⟨separator, mode, stepLimit⟩ =
            .ok fresh ∧ fresh.calculate patience = (.done (), after) ∧ after.steps = moves ∧
          after.content = Numeral.text (value first * value second) ∧
          after.render = "Q" ++ Numeral.text (value first * value second) := by
  obtain ⟨moves, -, run⟩ := calculate_inputText nonempty nonempty'
  refine ⟨moves, ?_, ?_⟩
  · intro mode patience patient
    obtain ⟨fresh, after, built, calculated, -, steps⟩ := run ⟨separator, mode, none⟩ free _ patient
    exact ⟨fresh, after, built, calculated, steps⟩
  · intro mode stepLimit patience allows
    obtain ⟨fresh, after, built, calculated, stands, steps⟩ := run _ free patience allows
    obtain ⟨content, render⟩ := stands.content (digits_ne_nil _)
    exact ⟨fresh, after, built, calculated, steps, content, render⟩

theorem exists_takes (accepted : Accepted separator text.toList)
    (free : Symbol.isReserved separator = false) : ∃ moves, Takes text separator moves := by
  obtain ⟨first, second, nonempty, nonempty', rfl⟩ :=
    accepts_inputText_iff.mp (accepts_iff.mpr accepted)
  obtain ⟨moves, takes, -⟩ := takes_inputText nonempty nonempty' free
  exact ⟨moves, takes⟩

theorem Takes.not_within (takes : Takes text separator moves) (limited : limit ≠ 0)
    (passed : limit < moves) : ¬ (limit = 0 ∨ ∃ within ≤ limit, Takes text separator within) := by
  rintro (unlimited | ⟨within, le, takes'⟩)
  · exact limited unlimited
  · cases takes.unique takes'
    exact Nat.not_lt_of_le le passed

def StopsIn (text : String) (separator : Char) (limit : Nat) (p : Phase) : Prop :=
  ∀ mode patience, ∃ fresh after, ofInput text ⟨separator, mode, some limit⟩ = .ok fresh ∧
    fresh.calculate patience = (.failed (.stepLimitExceeded limit), after) ∧ after.phase = p ∧
    after.steps = limit + 1

theorem render_of_ofInput (built : ofInput text config = .ok m) : m.render = "Q" ++ text := by
  obtain ⟨free, accepted, -⟩ := ofInput_eq_ok_iff.mp built
  obtain ⟨tape, -, -, -, render, same⟩ := ofInput_of_accepted free accepted
  cases built.symm.trans same
  exact render

theorem ofInput_withMode (built : ofInput text config = .ok m) (mode : Mode) :
    ofInput text { config with mode } = .ok (m.withMode mode) := by
  obtain ⟨free, accepted, tape, laid, rfl⟩ := ofInput_eq_ok_iff.mp built
  exact ofInput_eq_ok_iff.mpr ⟨free, accepted, tape, laid, rfl⟩

theorem calculate_withMode (m : Machine) (mode : Mode) (patience : Nat) :
    ((m.withMode mode).calculate patience).1 = (m.calculate patience).1 ∧
      ((m.withMode mode).calculate patience).2.Alike (m.calculate patience).2 := by
  have start : (m.withMode mode).Alike m := m.alike_withMode mode m.head.journal.mode
  obtain ⟨same, acts⟩ := start.calculate patience
  refine ⟨same, ?_⟩
  rw [← replay_acts, acts, ← replay_acts]
  exact start.replay _

/-- The phase depends neither on what is noted nor on the patience. -/
theorem stopsIn_of_takes (takes : Takes text separator moves) (passed : limit < moves) :
    ∃ p, StopsIn text separator limit p := by
  obtain ⟨unlimited, after, built, calculated, rfl⟩ := takes .run (moves + 1) (Nat.lt_succ_self _)
  obtain ⟨limited, short, built, failed, spent⟩ :=
    @calculate_of_passed limit _ text ⟨separator, .run, none⟩ unlimited after built calculated
      passed 0
  refine ⟨short.phase, fun mode patience => ?_⟩
  have ended : (limited.calculate 0).1 ≠ .unfinished := by simp [failed]
  have again := calculate_of_le ended (Nat.zero_le patience)
  obtain ⟨same, alike⟩ := limited.calculate_withMode mode patience
  rw [again, failed] at same alike
  exact ⟨_, ((limited.withMode mode).calculate patience).2, ofInput_withMode built mode,
    Prod.ext same rfl, alike.phase, alike.head.steps.trans spent⟩

section Runs

variable {p stopping : Phase} {fault : Fault}
  (ran : (ofInput text ⟨separator, .run, some limit⟩).toOption.map
    (fun m => ((m.calculate 0).1, (m.calculate 0).2.phase)) = some (.failed fault, stopping))

include ran

theorem Takes.lt_of_failed (takes : Takes text separator moves) : limit < moves := by
  obtain ⟨first, second, nonempty, nonempty', rfl⟩ :=
    accepts_inputText_iff.mp (accepts_iff.mpr takes.accepted.2)
  obtain ⟨other, takes', run⟩ := takes_inputText nonempty nonempty' takes.accepted.1
  cases takes.unique takes'
  by_contra within
  obtain ⟨fresh, after, built, calculated, -⟩ := run .run (some limit) 0 (Nat.le_of_not_lt within)
  simp [built, calculated, Except.toOption] at ran

theorem StopsIn.eq_of_failed (stops : StopsIn text separator limit p) : p = stopping := by
  obtain ⟨fresh, after, built, failed, rfl, -⟩ := stops .run 0
  simp only [built, failed, Except.toOption, Option.map_some, Option.some_inj, Prod.mk.injEq] at ran
  exact ran.2

end Runs

end Limits

end Machine

namespace CommandLine

open Machine (Takes StopsIn)

namespace Arguments

theorem limit_eq (a : Arguments) : a.limit =
    if a.stepLimit.getD Machine.defaultStepLimit = 0 then none
    else some (a.stepLimit.getD Machine.defaultStepLimit) := by
  unfold limit
  split
  · next none_ => rw [if_pos none_]
  · next n some_ => rw [if_neg some_]

theorem request_of_read {arguments : List String} {a : Arguments}
    (parsed : read arguments {} = .ok a) : CommandLine.request arguments = a.request := by
  rw [CommandLine.request, parsed]
  rfl

end Arguments

section Products

variable {patience : Nat} {log : Log} {config : Machine.Config} {trace : Bool}
  {fresh after : Machine}

namespace Reply

def malformed (text : String) (separator : Char) : Reply :=
  failure ["Rejected '" ++ text ++ "': expected <binary>" ++ String.singleton separator
    ++ "<binary>"]

def reserved (separator : Char) : Reply := failure [(Fault.reservedDelimiter separator).message]

def opening (text : String) (trace : Bool) : List String := if trace then ["Q" ++ text] else []

def stopped (text : String) (limit : Nat) (p : Phase) (trace : Bool) (logged : List String) :
    Reply :=
  failure (opening text trace ++ logged
    ++ [(Fault.stepLimitExceeded limit).message ++ " (stopped in " ++ p.name ++ ")"])

def multiplied (text product : String) (moves : Nat) (trace : Bool) (logged : List String) :
    Reply where
  status := 0
  stdout := lines [product]
  stderr := lines (opening text trace ++ logged
    ++ if trace then ["Q" ++ product, toString moves ++ " moves"] else [])

theorem ofProduct_isAcceptedWith {e : Engine} (standard : e.Standard) :
    ofProduct e.isAcceptedWith = ofProduct isInput := by
  rw [e.isAcceptedWith_eq_isInput standard]

theorem ofProduct_malformed (refused : accepts config.separator text.toList = false) :
    ofProduct isInput log patience text config trace = some (malformed text config.separator) := by
  simp [ofProduct, isInput, refused, malformed]

theorem ofProduct_reserved (accepted : accepts config.separator text.toList)
    (taken : Symbol.isReserved config.separator) :
    ofProduct isInput log patience text config trace = some (reserved config.separator) := by
  have refused : Machine.ofChecked isInput text config =
    .error (.reservedDelimiter config.separator) := Machine.ofInput_of_reserved taken text
  simp [ofProduct, isInput, accepted, refused, reserved]

theorem ofProduct_stopped (built : Machine.ofInput text config = .ok fresh)
    (failed : fresh.calculate patience = (.failed (.stepLimitExceeded limit), after)) :
    ofProduct isInput log patience text config trace =
      some (stopped text limit after.phase trace (logged log after)) := by
  obtain ⟨-, accepted, -⟩ := Machine.ofInput_eq_ok_iff.mp built
  have shown := Machine.render_of_ofInput built
  rw [Machine.ofInput] at built
  simp [ofProduct, isInput, accepted, built, failed, shown, stopped, opening]

theorem ofProduct_multiplied {product : String} (built : Machine.ofInput text config = .ok fresh)
    (calculated : fresh.calculate patience = (.done (), after)) (content : after.content = product)
    (render : after.render = "Q" ++ product) :
    ofProduct isInput log patience text config trace =
      some (multiplied text product after.steps trace (logged log after)) := by
  obtain ⟨-, accepted, -⟩ := Machine.ofInput_eq_ok_iff.mp built
  have shown := Machine.render_of_ofInput built
  rw [Machine.ofInput] at built
  simp [ofProduct, isInput, accepted, built, calculated, shown, multiplied, opening, content, render]

/-- A log that does not show the moves shows nothing of a single run. -/
theorem logged_eq_nil (quiet : log.verbosity ≠ .info) (m : Machine) : logged log m = [] := by
  apply Log.lines_of_hidden
  intro record member
  obtain ⟨event, -, rfl⟩ := List.mem_map.mp member
  cases verbosity : log.verbosity with
  | off => rfl
  | warn => cases event <;> rfl
  | info => exact absurd verbosity quiet

end Reply

section Answers

theorem lines_append (first second : List String) :
    Reply.lines (first ++ second) = Reply.lines first ++ Reply.lines second := by
  simp [Reply.lines]

theorem lines_cons (line : String) (rest : List String) :
    Reply.lines (line :: rest) = line ++ "\n" ++ Reply.lines rest := by
  simp [Reply.lines]

theorem lines_ne_empty (line : String) (rest : List String) : Reply.lines (line :: rest) ≠ "" := by
  rw [lines_cons]
  intro empty
  have length := congrArg String.length empty
  simp at length

theorem stderr_reserved (separator : Char) : (Reply.reserved separator).stderr =
    "delimiter " ++ Text.quotedChar separator ++ " is part of the tape alphabet\n" := by
  have message : (Fault.reservedDelimiter separator).message =
    "delimiter " ++ Text.quotedChar separator ++ " is part of the tape alphabet" := rfl
  simp only [Reply.reserved, Reply.failure, lines_cons, message, String.append_assoc]
  rfl

/-- What is replied to a request for one product. A limit of 0 is none. -/
structure AnswersProduct (log : Log) (text : String) (separator : Char) (limit : Nat)
    (trace : Bool) (reply : Reply) : Prop where
  succeeds_iff : reply.status = 0 ↔ Accepted separator text.toList ∧
    Symbol.isReserved separator = false ∧ (limit = 0 ∨ ∃ moves ≤ limit, Takes text separator moves)
  product : reply.status = 0 → ∀ first second, text = inputText first second separator →
    reply.stdout = Numeral.text (value first * value second) ++ "\n"
  fails : reply.status ≠ 0 → reply.status = 1 ∧ reply.stdout = "" ∧ reply.stderr ≠ ""
  /-- The form of the input is looked at first, whatever the separator. -/
  malformed : ¬ Accepted separator text.toList → reply.stderr =
    "Rejected '" ++ text ++ "': expected <binary>" ++ String.singleton separator ++ "<binary>\n"
  reserved : Accepted separator text.toList → Symbol.isReserved separator → reply.stderr =
    "delimiter " ++ Text.quotedChar separator ++ " is part of the tape alphabet\n"
  stopped : limit ≠ 0 → (∃ moves > limit, Takes text separator moves) → ∃ p name logged,
    StopsIn text separator limit p ∧
      (p, name) ∈ [(.zeroCheck, "ZeroCheck"), (.endMark, "EndMark"), (.digitScan, "DigitScan"),
        (.dispatch, "Dispatch"), (.placeValue, "PlaceValue"), (.inputRemoval, "InputRemoval"),
        (.addition, "Addition"), (.cleanup, "Cleanup"), (.done, "Done")] ∧
      (log.verbosity ≠ .info → logged = "") ∧ reply.stderr =
        (if trace then "Q" ++ text ++ "\n" else "") ++ logged ++ "step limit of " ++
          toString limit ++ " moves exceeded (stopped in " ++ name ++ ")\n"
  untimed : reply.timed = none

theorem answers_malformed (malformed : ¬ Accepted separator text.toList) :
    AnswersProduct log text separator limit trace (.malformed text separator) where
  succeeds_iff := by simp [Reply.malformed, Reply.failure, malformed]
  product := nofun
  fails _ := ⟨rfl, rfl, lines_ne_empty _ _⟩
  malformed _ := by
    simp only [Reply.malformed, Reply.failure, lines_cons, String.append_assoc]
    rfl
  reserved accepted := absurd accepted malformed
  stopped _ takes := by
    obtain ⟨_, _, takes⟩ := takes
    exact absurd takes.accepted.2 malformed
  untimed := rfl

theorem answers_reserved (accepted : Accepted separator text.toList)
    (taken : Symbol.isReserved separator) :
    AnswersProduct log text separator limit trace (.reserved separator) where
  succeeds_iff := by simp [Reply.reserved, Reply.failure, taken]
  product := nofun
  fails _ := ⟨rfl, rfl, lines_ne_empty _ _⟩
  malformed refused := absurd accepted refused
  reserved _ _ := stderr_reserved separator
  stopped _ takes := by
    obtain ⟨_, _, takes⟩ := takes
    simp [takes.accepted.1] at taken
  untimed := rfl

theorem stderr_stopped (text : String) (limit : Nat) (p : Phase) (trace : Bool)
    (logged : List String) : (Reply.stopped text limit p trace logged).stderr =
      (if trace then "Q" ++ text ++ "\n" else "") ++ Reply.lines logged ++ "step limit of " ++
        toString limit ++ " moves exceeded (stopped in " ++ p.name ++ ")\n" := by
  have message : (Fault.stepLimitExceeded limit).message =
    "step limit of " ++ toString limit ++ " moves exceeded" := rfl
  have opening : Reply.lines (Reply.opening text trace) =
      if trace then "Q" ++ text ++ "\n" else "" := by
    cases trace <;> rfl
  simp only [Reply.stopped, Reply.failure, lines_append, opening, lines_cons, message,
    String.append_assoc]
  rfl

theorem answers_stopped {p : Phase} {logged : List String} (takes : Takes text separator moves)
    (limited : limit ≠ 0) (passed : limit < moves) (stops : StopsIn text separator limit p)
    (quiet : log.verbosity ≠ .info → logged = []) :
    AnswersProduct log text separator limit trace (.stopped text limit p trace logged) where
  succeeds_iff := by
    refine iff_of_false Nat.one_ne_zero ?_
    rintro ⟨-, -, within⟩
    exact takes.not_within limited passed within
  product := nofun
  fails _ := by
    refine ⟨rfl, rfl, ?_⟩
    rw [stderr_stopped]
    intro empty
    have length := congrArg String.length empty
    simp at length
  malformed refused := absurd takes.accepted.2 refused
  reserved _ taken := by simp [takes.accepted.1] at taken
  stopped _ _ := by
    refine ⟨p, p.name, Reply.lines logged, stops, by cases p <;> decide, ?_, stderr_stopped ..⟩
    intro hidden
    rw [quiet hidden]
    rfl
  untimed := rfl

theorem answers_multiplied {first second : List Bool}
    (takes : Takes (inputText first second separator) separator moves)
    (within : limit = 0 ∨ moves ≤ limit) (logged : List String) :
    AnswersProduct log (inputText first second separator) separator limit trace
      (.multiplied (inputText first second separator)
        (Numeral.text (value first * value second)) moves trace logged) where
  succeeds_iff := by
    refine iff_of_true rfl ⟨takes.accepted.2, takes.accepted.1, ?_⟩
    exact within.imp_right fun le => ⟨moves, le, takes⟩
  product _ left right same := by
    obtain ⟨rfl, rfl⟩ := (inputText_inj takes.accepted.1).mp same
    simp only [Reply.multiplied, lines_cons]
    exact String.append_empty
  fails failed := absurd rfl failed
  malformed refused := absurd takes.accepted.2 refused
  reserved _ taken := by simp [takes.accepted.1] at taken
  stopped limited short := by
    obtain ⟨other, passed, takes'⟩ := short
    cases takes.unique takes'
    omega
  untimed := rfl

theorem AnswersProduct.same {other : Log} {trace' : Bool} {reply reply' : Reply}
    (answers : AnswersProduct log text separator limit trace reply)
    (answers' : AnswersProduct other text separator limit trace' reply') :
    reply.status = reply'.status ∧ reply.stdout = reply'.stdout := by
  by_cases success : reply.status = 0
  · have success' := answers'.succeeds_iff.mpr (answers.succeeds_iff.mp success)
    obtain ⟨accepted, -⟩ := answers.succeeds_iff.mp success
    obtain ⟨first, second, -, -, form⟩ := accepts_inputText_iff.mp (accepts_iff.mpr accepted)
    refine ⟨success.trans success'.symm, ?_⟩
    rw [answers.product success first second form, answers'.product success' first second form]
  · have failure' : reply'.status ≠ 0 := fun success' =>
      success (answers.succeeds_iff.mpr (answers'.succeeds_iff.mp success'))
    obtain ⟨status, stdout, -⟩ := answers.fails success
    obtain ⟨status', stdout', -⟩ := answers'.fails failure'
    exact ⟨status.trans status'.symm, stdout.trans stdout'.symm⟩

theorem exists_product_reply (log : Log) (text : String) (separator : Char) (limit : Nat)
    (mode : Mode) (trace : Bool) : ∃ reply, AnswersProduct log text separator limit trace reply ∧
      (Request.product text
        ⟨separator, mode, if limit = 0 then none else some limit⟩ trace).Settles log reply := by
  by_cases accepted : Accepted separator text.toList
  · cases free : Symbol.isReserved separator with
    | true =>
      refine ⟨.reserved separator, answers_reserved accepted free, ?_⟩
      exact @Request.settles_of_reply 0 _ _ _
        (Reply.ofProduct_reserved (accepts_iff.mpr accepted) free)
    | false =>
      obtain ⟨first, second, nonempty, nonempty', rfl⟩ :=
        accepts_inputText_iff.mp (accepts_iff.mpr accepted)
      obtain ⟨moves, takes, run⟩ := Machine.takes_inputText nonempty nonempty' free
      by_cases within : limit = 0 ∨ moves ≤ limit
      · have allows : Machine.Config.Allows
            ⟨separator, mode, if limit = 0 then none else some limit⟩ (moves + 1) moves := by
          unfold Machine.Config.Allows
          split_ifs <;> simp only <;> omega
        obtain ⟨fresh, after, built, calculated, rfl, content, render⟩ := run mode _ _ allows
        exact ⟨_, answers_multiplied takes within _,
          Request.settles_of_reply (Reply.ofProduct_multiplied built calculated content render)⟩
      · obtain ⟨limited, passed⟩ := not_or.mp within
        obtain ⟨p, stops⟩ := Machine.stopsIn_of_takes takes (Nat.lt_of_not_le passed)
        obtain ⟨fresh, after, built, failed, rfl, -⟩ := stops mode 0
        rw [if_neg limited]
        exact ⟨_, answers_stopped takes limited (Nat.lt_of_not_le passed) stops
            fun quiet => Reply.logged_eq_nil quiet after,
          Request.settles_of_reply (Reply.ofProduct_stopped built failed)⟩
  · refine ⟨.malformed text separator, answers_malformed accepted, ?_⟩
    exact @Request.settles_of_reply 0 _ _ _
      (Reply.ofProduct_malformed (Bool.eq_false_iff.mpr (mt accepts_iff.mp accepted)))

end Answers

end Products

end CommandLine

end TuringMultiplier
