import TuringMultiplier.Proofs.Acts
import TuringMultiplier.Proofs.Multiplication
import TuringMultiplier.Proofs.Termination

/-! Two runs that differ in their fuse alone. As long as the tighter fuse holds, both do the same;
when it blows, its run has made the acts of the other one up to the move that was one too many, and
stops there. So a fuse decides how far a run gets and nothing else. -/

set_option autoImplicit false

namespace TuringMultiplier

open Procedure

namespace Head

variable {h : Head} {limit : Nat}

def withStepLimit (h : Head) (stepLimit : Option Nat) : Head := { h with stepLimit }

theorem mark_withStepLimit (h : Head) (stepLimit : Option Nat) (w : List Symbol) :
    (h.withStepLimit stepLimit).mark w = (h.mark w).withStepLimit stepLimit := by
  induction w generalizing h with
  | nil => rfl
  | cons s w ih => exact ih (h.write s)

theorem turn_withStepLimit (h : Head) (stepLimit : Option Nat) (w : List Symbol) (d : Direction) :
    ((h.withStepLimit stepLimit).mark w).move d =
      ((h.mark w).move d).withStepLimit stepLimit := by
  rw [mark_withStepLimit]
  rfl

theorem fuse_withStepLimit_of_le (within : h.steps ≤ limit) :
    (h.withStepLimit (some limit)).fuse = none := by
  apply fuse_eq_none_iff.mpr
  intro other member
  cases member
  exact within

theorem fuse_withStepLimit_of_lt (passed : limit < h.steps) :
    (h.withStepLimit (some limit)).fuse = some (.stepLimitExceeded limit) :=
  fuse_eq_some_iff.mpr ⟨limit, rfl, passed, rfl⟩

def Looser (h : Head) (limit : Nat) : Prop := ∀ other ∈ h.stepLimit, limit < other

theorem Looser.of_eq {other : Head} (loose : h.Looser limit) (same : other.stepLimit = h.stepLimit) :
    other.Looser limit := by
  unfold Looser
  rwa [same]

theorem Looser.turn (loose : h.Looser limit) (w : List Symbol) (d : Direction) :
    ((h.mark w).move d).Looser limit :=
  loose.of_eq (stepLimit_mark h w)

theorem Looser.unblown (loose : h.Looser limit) (before : h.steps < limit) (w : List Symbol)
    (d : Direction) : ((h.mark w).move d).fuse = none ∧
      (((h.withStepLimit (some limit)).mark w).move d).fuse = none := by
  have within : ((h.mark w).move d).steps ≤ limit := by
    rwa [steps_move, steps_mark]
  rw [turn_withStepLimit]
  refine ⟨fuse_eq_none_iff.mpr fun other member => ?_, fuse_withStepLimit_of_le within⟩
  exact Nat.le_trans within (Nat.le_of_lt (loose.turn w d other member))

end Head

namespace Control

variable {σ ρ : Type} {control : Control σ ρ} {turns more limit : Nat} {q : σ} {h : Head}

theorem drive_uncut (loose : h.Looser limit) (ended : (control.drive turns q h).1 ≠ .unfinished)
    (within : (control.drive turns q h).2.steps ≤ limit) (enough : limit - h.steps < more) :
    (control.drive more q (h.withStepLimit (some limit))).1 = (control.drive turns q h).1 ∧
      control.acts more q (h.withStepLimit (some limit)) = control.acts turns q h := by
  induction turns generalizing q h more with
  | zero => exact absurd rfl ended
  | succ turns ih =>
    obtain ⟨more, rfl⟩ : ∃ less, more = less + 1 := ⟨more - 1, by omega⟩
    cases turn : control q h.symbol with
    | finish w result =>
      have turn' : control q (h.withStepLimit (some limit)).symbol = .finish w result := turn
      rw [drive_finish turn, drive_finish turn', acts_finish turn, acts_finish turn']
      exact ⟨rfl, rfl⟩
    | refuse fault =>
      have turn' : control q (h.withStepLimit (some limit)).symbol = .refuse fault := turn
      rw [drive_refuse turn, drive_refuse turn', acts_refuse turn, acts_refuse turn']
      exact ⟨rfl, rfl⟩
    | go w d next =>
      have turn' : control q (h.withStepLimit (some limit)).symbol = .go w d next := turn
      have grown := steps_lt_drive turn turns
      obtain ⟨fuse, fuse'⟩ := loose.unblown (Nat.lt_of_lt_of_le grown within) w d
      rw [drive_go turn fuse] at ended within grown
      rw [drive_go turn fuse, drive_go turn' fuse', acts_go turn fuse, acts_go turn' fuse',
        Head.turn_withStepLimit]
      have enough : limit - ((h.mark w).move d).steps < more := by
        rw [Head.steps_move, Head.steps_mark]
        omega
      obtain ⟨same, acts⟩ := ih (loose.turn w d) ended within enough
      rw [acts]
      exact ⟨same, rfl⟩

/-- A drive that goes beyond the tighter limit is cut short by it, behind the first move too many. -/
theorem drive_cut (loose : h.Looser limit) (start : h.steps ≤ limit)
    (passed : limit < (control.drive turns q h).2.steps) (enough : limit - h.steps < more) :
    (control.drive more q (h.withStepLimit (some limit))).1 =
        .failed (.stepLimitExceeded limit) ∧
      ∃ done d rest, control.acts turns q h = done ++ .move d :: rest ∧
        control.acts more q (h.withStepLimit (some limit)) = done ++ [.move d] := by
  induction turns generalizing q h more with
  | zero => exact absurd start (Nat.not_le_of_lt passed)
  | succ turns ih =>
    obtain ⟨more, rfl⟩ : ∃ less, more = less + 1 := ⟨more - 1, by omega⟩
    cases turn : control q h.symbol with
    | finish w result =>
      rw [drive_finish turn, Head.steps_mark] at passed
      exact absurd start (Nat.not_le_of_lt passed)
    | refuse fault =>
      rw [drive_refuse turn] at passed
      exact absurd start (Nat.not_le_of_lt passed)
    | go w d next =>
      have turn' : control q (h.withStepLimit (some limit)).symbol = .go w d next := turn
      by_cases last : h.steps = limit
      · -- This move is the one too many.
        have beyond : limit < ((h.mark w).move d).steps := by
          rw [Head.steps_move, Head.steps_mark, last]
          exact Nat.lt_succ_self _
        have fuse' := Head.fuse_withStepLimit_of_lt beyond
        rw [← Head.turn_withStepLimit] at fuse'
        rw [drive_blown turn' fuse', acts_blown turn' fuse']
        refine ⟨rfl, Act.ofMark w, d, ?_⟩
        cases fuse : ((h.mark w).move d).fuse with
        | some fault => exact ⟨[], acts_blown turn fuse, rfl⟩
        | none => exact ⟨_, acts_go turn fuse, rfl⟩
      · have before := Nat.lt_of_le_of_ne start last
        obtain ⟨fuse, fuse'⟩ := loose.unblown before w d
        rw [drive_go turn fuse] at passed
        rw [drive_go turn' fuse', acts_go turn fuse, acts_go turn' fuse', Head.turn_withStepLimit]
        have steps : ((h.mark w).move d).steps = h.steps + 1 := by simp
        obtain ⟨failed, done, d', rest, long, short⟩ :=
          ih (loose.turn w d) (steps ▸ before) passed (by omega : _ < more)
        refine ⟨failed, Act.ofMark w ++ .move d :: done, d', rest, ?_, ?_⟩
        · rw [long, List.append_assoc, List.cons_append]
        · rw [short, List.append_assoc, List.cons_append]

end Control

namespace Machine

variable {m : Machine} {limit patience patience' count more : Nat}

def withStepLimit (m : Machine) (stepLimit : Option Nat) : Machine :=
  ⟨m.head.withStepLimit stepLimit, m.phase⟩

theorem replay_withStepLimit (m : Machine) (stepLimit : Option Nat) (acts : List Act) :
    (m.withStepLimit stepLimit).replay acts = (m.replay acts).withStepLimit stepLimit := by
  induction acts generalizing m with
  | nil => rfl
  | cons a acts ih =>
    have first : (m.withStepLimit stepLimit).act a = (m.act a).withStepLimit stepLimit := by
      cases a <;> rfl
    rw [replay_cons, first, ih, replay_cons]

section Advances

theorem turns_withStepLimit (m : Machine) (limit patience' : Nat) :
    limit - m.head.steps < (m.withStepLimit (some limit)).head.turns patience' :=
  Nat.lt_succ_self _

theorem advance_uncut (loose : m.head.Looser limit) (ended : (m.advance patience).1 ≠ .unfinished)
    (within : (m.advance patience).2.head.steps ≤ limit) :
    (m.withStepLimit (some limit)).advance patience' =
        ((m.advance patience).1, (m.advance patience).2.withStepLimit (some limit)) ∧
      (m.withStepLimit (some limit)).advanceActs patience' = m.advanceActs patience := by
  have start := turns_withStepLimit m limit patience'
  have answered : ((m.withStepLimit (some limit)).driven patience').1 = (m.driven patience).1 ∧
      (m.withStepLimit (some limit)).drivenActs patience' = m.drivenActs patience := by
    rw [outcome_advance] at ended
    rw [steps_advance] at within
    exact Control.drive_uncut loose ended within start
  have acts : (m.withStepLimit (some limit)).advanceActs patience' = m.advanceActs patience := by
    unfold advanceActs
    rw [answered.1, answered.2]
    rfl
  -- The same acts lead to the same machine.
  refine ⟨Prod.ext ?_ ?_, acts⟩
  · rw [outcome_advance, answered.1, outcome_advance]
  · rw [← replay_advanceActs, acts, replay_withStepLimit, replay_advanceActs]

theorem advance_cut (loose : m.head.Looser limit) (start : m.head.steps ≤ limit)
    (passed : limit < (m.advance patience).2.head.steps) :
    ((m.withStepLimit (some limit)).advance patience').1 = .failed (.stepLimitExceeded limit) ∧
      ∃ done d rest, m.advanceActs patience = done ++ .move d :: rest ∧
        (m.withStepLimit (some limit)).advanceActs patience' = done ++ [.move d] := by
  rw [steps_advance] at passed
  obtain ⟨failed, done, d, rest, long, short⟩ :=
    Control.drive_cut loose start passed (turns_withStepLimit m limit patience')
  change ((m.withStepLimit (some limit)).driven patience').1 = _ at failed
  rw [outcome_advance]
  refine ⟨failed, done, d, ?_⟩
  unfold advanceActs
  rw [failed]
  change m.drivenActs patience = _ at long
  rw [long]
  cases (m.driven patience).1 with
  | done q => exact ⟨_, List.append_assoc .., short⟩
  | failed | unfinished => exact ⟨rest, rfl, short⟩

end Advances

section Runs

-- What is pending does not depend on the fuse that the machine has.
theorem pending_uncut {q : Phase} {after : Machine} (live : m.phase ≠ .done)
    (advanced : (m.withStepLimit (some limit)).advance patience' =
      (.done q, after.withStepLimit (some limit))) : after.pending limit < m.pending limit := by
  have live' : (m.withStepLimit (some limit)).phase ≠ .done := live
  have less := pending_advance rfl live' advanced
  exact less

theorem advanceUntilDone_uncut (loose : m.head.Looser limit)
    (ended : (m.advanceUntilDone patience count).1 ≠ .unfinished)
    (within : (m.advanceUntilDone patience count).2.head.steps ≤ limit)
    (enough : m.pending limit < more) :
    (m.withStepLimit (some limit)).advanceUntilDone patience' more =
      ((m.advanceUntilDone patience count).1,
        (m.advanceUntilDone patience count).2.withStepLimit (some limit)) := by
  induction count generalizing m more with
  | zero => exact absurd rfl ended
  | succ count ih =>
    obtain ⟨more, rfl⟩ : ∃ less, more = less + 1 := ⟨more - 1, by omega⟩
    by_cases finished : m.phase = .done
    · have finished' : (m.withStepLimit (some limit)).phase = .done := finished
      rw [advanceUntilDone_of_done finished, advanceUntilDone_of_done finished']
    · have live : (m.withStepLimit (some limit)).phase ≠ .done := finished
      have uncut := @advance_uncut m limit patience patience' loose
      have kept := stepLimit_advance m patience
      rcases advanced : m.advance patience with ⟨q | fault | _, after⟩ <;>
        simp only [advanced] at uncut kept
      · rw [advanceUntilDone_of_advance finished advanced] at ended within ⊢
        have grown := steps_le_advanceUntilDone after patience count
        obtain ⟨same, -⟩ := uncut nofun (Nat.le_trans grown within)
        have less := pending_uncut finished same
        rw [advanceUntilDone_of_advance live same]
        exact ih (loose.of_eq kept) ended within (by omega)
      · rw [advanceUntilDone_of_failed finished advanced] at within ⊢
        exact advanceUntilDone_of_failed live (uncut nofun within).1
      · rw [advanceUntilDone_of_unfinished finished advanced] at ended
        exact absurd rfl ended

/-- Cut short, a run has made the acts of the other one up to a move, and stops in the phase that the
other one makes this move in. -/
theorem advanceUntilDone_cut (loose : m.head.Looser limit) (start : m.head.steps ≤ limit)
    (passed : limit < (m.advanceUntilDone patience count).2.head.steps)
    (enough : m.pending limit < more) :
    ((m.withStepLimit (some limit)).advanceUntilDone patience' more).1 =
        .failed (.stepLimitExceeded limit) ∧
      (∃ done d rest, m.actsUpTo patience count = done ++ .move d :: rest ∧
        (m.withStepLimit (some limit)).actsUpTo patience' more = done ++ [.move d]) ∧
      ∃ before ∈ m :: (m.historyUpTo patience count).map Prod.snd, before.head.steps ≤ limit ∧
        limit < (before.advance patience).2.head.steps ∧
        ((m.withStepLimit (some limit)).advanceUntilDone patience' more).2.phase = before.phase := by
  induction count generalizing m more with
  | zero => exact absurd start (Nat.not_le_of_lt passed)
  | succ count ih =>
    obtain ⟨more, rfl⟩ : ∃ less, more = less + 1 := ⟨more - 1, by omega⟩
    by_cases finished : m.phase = .done
    · rw [advanceUntilDone_of_done finished] at passed
      exact absurd start (Nat.not_le_of_lt passed)
    · have live : (m.withStepLimit (some limit)).phase ≠ .done := finished
      by_cases within : (m.advance patience).2.head.steps ≤ limit
      · -- The advance is the same under both fuses, and the next one starts within the limit.
        have uncut := @advance_uncut m limit patience patience' loose
        have kept := stepLimit_advance m patience
        rcases advanced : m.advance patience with ⟨q | fault | _, after⟩ <;>
          simp only [advanced] at within uncut kept
        · obtain ⟨same, acts⟩ := uncut nofun within
          have less := pending_uncut finished same
          rw [advanceUntilDone_of_advance finished advanced] at passed
          rw [advanceUntilDone_of_advance live same, actsUpTo_of_advance finished advanced,
            actsUpTo_of_advance live same, acts, historyUpTo, if_neg finished, advanced]
          obtain ⟨failed, ⟨done, d, rest, long, short⟩, before, member, crosses⟩ :=
            ih (loose.of_eq kept) within passed (by omega : _ < more)
          refine ⟨failed, ⟨m.advanceActs patience ++ done, d, rest, ?_, ?_⟩, before,
            List.mem_cons_of_mem _ member, crosses⟩
          · rw [long, List.append_assoc]
          · rw [short, List.append_assoc]
        · rw [advanceUntilDone_of_failed finished advanced] at passed
          exact absurd within (Nat.not_le_of_lt passed)
        · rw [advanceUntilDone_of_unfinished finished advanced] at passed
          exact absurd within (Nat.not_le_of_lt passed)
      · -- The limit is passed within this advance.
        have passed := Nat.lt_of_not_le within
        obtain ⟨failed, done, d, rest, long, short⟩ :=
          @advance_cut m limit patience patience' loose start passed
        have stopped := phase_of_failed failed
        rw [actsUpTo_of_stop live (by simp [failed]), actsUpTo, if_neg finished,
          advanceUntilDone_of_failed live (Prod.ext failed rfl), long, List.append_assoc]
        exact ⟨rfl, ⟨done, d, _, rfl, short⟩, m, List.mem_cons_self, start, passed, stopped⟩

theorem calculate_uncut (loose : m.head.Looser limit) (ended : (m.calculate patience).1 ≠ .unfinished)
    (within : (m.calculate patience).2.head.steps ≤ limit) :
    (m.withStepLimit (some limit)).calculate patience' =
      ((m.calculate patience).1, (m.calculate patience).2.withStepLimit (some limit)) :=
  advanceUntilDone_uncut loose ended within
    (pending_lt_advances (m := m.withStepLimit (some limit)) rfl patience')

theorem calculate_exceeds (patience' : Nat) (loose : m.head.Looser limit)
    (start : m.head.steps ≤ limit) (passed : limit < (m.calculate patience).2.head.steps) :
    ((m.withStepLimit (some limit)).calculate patience').1 = .failed (.stepLimitExceeded limit) :=
  (advanceUntilDone_cut loose start passed
    (pending_lt_advances (m := m.withStepLimit (some limit)) rfl patience')).1

end Runs

section Journals

/-- The machine that a blown fuse left behind, next to the run from `m` with its own, looser fuse. -/
structure CutShort (m : Machine) (limit patience : Nat) (short : Machine) : Prop where
  steps : short.steps = limit + 1
  /-- The journal breaks off behind the move that was one too many, and shows where it led. -/
  journal : ∃ noted more : List Event,
    short.head.journal.entries.toList = m.head.journal.entries.toList ++ noted ∧
      (m.calculate patience).2.head.journal.entries.toList =
        short.head.journal.entries.toList ++ more ∧
      noted.countP Event.isMove = limit + 1 - m.steps ∧
      ((noted ++ more).filter Event.isMove)[limit - m.steps]? =
        some (.moved short.render (limit + 1) short.head.position)
  phase : ∃ before ∈ m :: (m.history patience).map Prod.snd, before.steps ≤ limit ∧
    limit < (before.advance patience).2.steps ∧ short.phase = before.phase
  state : ∃ done d rest, m.acts patience = done ++ .move d :: rest ∧
    short = (m.replay (done ++ [.move d])).withStepLimit (some limit)

theorem journal_cut {h : Head} (step : h.journal.mode = .step) (done : List Act) (d : Direction)
    (rest : List Act) (steps : (h.replay (done ++ [.move d])).steps = limit + 1) :
    ∃ noted more : List Event,
      (h.replay (done ++ [.move d])).journal.entries.toList =
          h.journal.entries.toList ++ noted ∧
        ((h.replay (done ++ [.move d])).replay rest).journal.entries.toList =
          (h.replay (done ++ [.move d])).journal.entries.toList ++ more ∧
        noted.countP Event.isMove = limit + 1 - h.steps ∧
        ((noted ++ more).filter Event.isMove)[limit - h.steps]? =
          some (.moved (h.replay (done ++ [.move d])).render (limit + 1)
            (h.replay (done ++ [.move d])).position) := by
  have one : [Act.move d].countP Act.isMove = 1 := rfl
  have moves := h.steps_replay (done ++ [.move d])
  rw [steps, List.countP_append, one] at moves
  have before : ((h.notes done).filter Event.isMove).length = limit - h.steps := by
    rw [← List.countP_eq_length_filter, Head.countP_isMove_notes step]
    omega
  refine ⟨_, _, Head.entries_replay .., Head.entries_replay .., ?_, ?_⟩
  · rw [Head.countP_isMove_notes step, List.countP_append, one]
    omega
  · rw [Head.notes_move step, List.append_assoc, List.filter_append, ← before,
      List.getElem?_append_right (Nat.le_refl _), Nat.sub_self, ← steps, Head.replay_append]
    rfl

theorem calculate_cut (step : m.head.journal.mode = .step) (loose : m.head.Looser limit)
    (start : m.head.steps ≤ limit) (passed : limit < (m.calculate patience).2.head.steps) :
    ((m.withStepLimit (some limit)).calculate patience').1 = .failed (.stepLimitExceeded limit) ∧
      m.CutShort limit patience ((m.withStepLimit (some limit)).calculate patience').2 := by
  obtain ⟨failed, ⟨done, d, rest, long, short⟩, crossing⟩ :=
    advanceUntilDone_cut loose start passed
      (pending_lt_advances (m := m.withStepLimit (some limit)) rfl patience')
  have behind : ((m.withStepLimit (some limit)).calculate patience').2 =
      (m.replay (done ++ [.move d])).withStepLimit (some limit) := by
    rw [← replay_acts, acts, short, replay_withStepLimit]
  have steps : (m.replay (done ++ [.move d])).head.steps = limit + 1 := by
    have spent := steps_of_exceeded (m := m.withStepLimit (some limit)) rfl start failed
    exact (congrArg (fun after => after.head.steps) behind).symm.trans spent
  have whole : (m.calculate patience).2.head =
      (m.head.replay (done ++ [.move d])).replay rest := by
    rw [← replay_acts, head_replay, acts, long, ← Head.replay_append, List.append_assoc]
    rfl
  have journal := journal_cut step done d rest (by rwa [head_replay] at steps)
  rw [← whole, ← head_replay] at journal
  refine ⟨failed, ?_⟩
  rw [behind]
  exact ⟨steps, journal, behind ▸ crossing, done, d, rest, long, rfl⟩

end Journals

section Inputs

variable {text : String} {config : Config} {unlimited : Machine}

theorem ofInput_withStepLimit (built : ofInput text config = .ok m) (stepLimit : Option Nat) :
    ofInput text { config with stepLimit } = .ok (m.withStepLimit stepLimit) := by
  obtain ⟨free, accepted, tape, laid, rfl⟩ := ofInput_eq_ok_iff.mp built
  exact ofInput_eq_ok_iff.mpr ⟨free, accepted, tape, laid, rfl⟩

theorem calculate_of_passed {after : Machine}
    (built : ofInput text { config with stepLimit := none } = .ok unlimited)
    (calculated : unlimited.calculate patience = (.done (), after)) (passed : limit < after.steps)
    (patience' : Nat) :
    ∃ limited short, ofInput text { config with stepLimit := some limit } = .ok limited ∧
      limited.calculate patience' = (.failed (.stepLimitExceeded limit), short) ∧
        short.steps = limit + 1 := by
  obtain ⟨-, -, tape, -, fresh⟩ := ofInput_eq_ok_iff.mp built
  have loose : unlimited.head.Looser limit := by
    rw [fresh]
    nofun
  have start : unlimited.head.steps ≤ limit := by
    rw [fresh]
    exact Nat.zero_le limit
  have beyond : limit < (unlimited.calculate patience).2.head.steps := by
    rwa [calculated]
  have failed := calculate_exceeds patience' loose start beyond
  have spent := steps_of_exceeded (m := unlimited.withStepLimit (some limit)) rfl start failed
  exact ⟨_, _, ofInput_withStepLimit built (some limit), Prod.ext failed rfl, spent⟩

/-- The moves of the run without a fuse are what a fuse has to allow. -/
theorem calculate_done_iff (built : ofInput text { config with stepLimit := none } = .ok unlimited) :
    ∃ moves,
      (∀ patience > moves, ∃ after, unlimited.calculate patience = (.done (), after) ∧
        after.steps = moves) ∧
      ∀ limit, ∃ limited, ofInput text { config with stepLimit := some limit } = .ok limited ∧
        ∀ patience, (limited.calculate patience).1 = .done () ↔ moves ≤ limit := by
  obtain ⟨first, second, nonempty, nonempty', rfl, free, -, -, -⟩ := inputText_of_ofInput built
  obtain ⟨moves, -, run⟩ := calculate_inputText nonempty nonempty'
  have whole : ∀ patience > moves, ∃ after, unlimited.calculate patience = (.done (), after) ∧
      after.steps = moves := by
    intro patience patient
    obtain ⟨fresh, after, built', calculated, -, steps⟩ :=
      run { config with stepLimit := none } free patience patient
    cases built.symm.trans built'
    exact ⟨after, calculated, steps⟩
  refine ⟨moves, whole, fun limit => ⟨_, ofInput_withStepLimit built (some limit), ?_⟩⟩
  intro patience
  constructor
  · intro answered
    by_contra beyond
    obtain ⟨after, calculated, steps⟩ := whole (moves + 1) (Nat.lt_succ_self moves)
    obtain ⟨limited, short, built', failed, -⟩ := calculate_of_passed built calculated
      (Nat.lt_of_lt_of_eq (Nat.lt_of_not_le beyond) steps.symm) patience
    cases (ofInput_withStepLimit built (some limit)).symm.trans built'
    rw [failed] at answered
    cases answered
  · intro allowed
    obtain ⟨fresh, after, built', calculated, -, -⟩ :=
      run { config with stepLimit := some limit } free patience allowed
    cases (ofInput_withStepLimit built (some limit)).symm.trans built'
    rw [calculated]

end Inputs

/-- A run and the same run under a tighter fuse: either they end alike, or the fuse cuts the one short
and it has done what the other does up to that move. So an input is multiplied by every fuse that
allows the moves of the run without one, and by no other. -/
theorem calculate_withStepLimit :
    (∀ (m : Machine) (limit patience patience' : Nat), m.head.journal.mode = .step →
      m.steps ≤ limit → (∀ other ∈ m.head.stepLimit, limit < other) →
      (m.calculate patience).1 ≠ .unfinished →
        ((m.withStepLimit (some limit)).calculate patience').1 ≠
            .failed (.stepLimitExceeded limit) ∧
          (m.withStepLimit (some limit)).calculate patience' =
            ((m.calculate patience).1, (m.calculate patience).2.withStepLimit (some limit)) ∨
        ((m.withStepLimit (some limit)).calculate patience').1 =
            .failed (.stepLimitExceeded limit) ∧
          m.CutShort limit patience ((m.withStepLimit (some limit)).calculate patience').2) ∧
    ∀ (text : String) (config : Config) (unlimited : Machine),
      ofInput text { config with stepLimit := none } = .ok unlimited → ∃ moves,
        (∀ patience > moves, ∃ after, unlimited.calculate patience = (.done (), after) ∧
          after.steps = moves) ∧
        ∀ limit, ∃ limited, ofInput text { config with stepLimit := some limit } = .ok limited ∧
          ∀ patience, (limited.calculate patience).1 = .done () ↔ moves ≤ limit := by
  constructor
  · intro m limit patience patience' step start loose ended
    by_cases within : (m.calculate patience).2.head.steps ≤ limit
    · have same := @calculate_uncut m limit patience patience' loose ended within
      refine .inl ⟨fun failed => ?_, same⟩
      rw [same] at failed
      exact absurd (loose limit (advanceUntilDone_exceeded failed).1) (Nat.lt_irrefl limit)
    · exact .inr (calculate_cut step loose start (Nat.lt_of_not_le within))
  · intro text config unlimited built
    exact calculate_done_iff built

theorem calculate_withStepLimit_three_times_two :
    (∃ m : Machine, m.head.stepLimit = some 5 ∧
      ((m.withStepLimit (some 3)).calculate 0).1 = .failed (.stepLimitExceeded 3) ∧
      m.CutShort 3 0 ((m.withStepLimit (some 3)).calculate 0).2) ∧
    ∃ moves, ∀ limit, ∃ limited, ofInput "11x10" { stepLimit := some limit } = .ok limited ∧
      ((limited.calculate 0).1 = .done () ↔ moves ≤ limit) := by
  obtain ⟨runs, inputs⟩ := calculate_withStepLimit
  constructor
  · have loose : ∀ other ∈ some 5, 3 < other := by
      intro other member
      cases member
      decide
    have cut := runs
      ⟨.ofTape ⟨#[.one, .one, .delimiter, .one, .zero], 'x'⟩ (some 5) .step, .zeroCheck⟩
      3 0 0 rfl (by decide) loose (calculate_returns rfl 0)
    rcases cut with ⟨holds, -⟩ | blows
    · exact absurd rfl holds
    · exact ⟨_, rfl, blows⟩
  · obtain ⟨unlimited, built, -⟩ := @ofInput_inputText [true, true] [true, false]
      { stepLimit := none } (by decide) (by decide) (by decide)
    obtain ⟨moves, -, limits⟩ := inputs "11x10" {} unlimited built
    refine ⟨moves, fun limit => ?_⟩
    obtain ⟨limited, built, done⟩ := limits limit
    exact ⟨limited, built, done 0⟩

end Machine

end TuringMultiplier
