import TuringMultiplier.Proofs.Input
import TuringMultiplier.Proofs.Operations

/-! Machines that look alike do alike. Neither the journal nor the separator is ever looked at, so a
run does not depend on how much of it is noted or on the character that its tape is printed with. -/

set_option autoImplicit false

namespace TuringMultiplier

open Procedure

namespace Tape

variable {t u : Tape}

theorem read_of_cells (same : t.cells = u.cells) (position : Int) :
    t.read position = u.read position := by
  cases position <;> simp only [read, same]

theorem write_of_cells (same : t.cells = u.cells) (position : Int) (s : Symbol) :
    (t.write position s).1.cells = (u.write position s).1.cells ∧
      (t.write position s).2 = (u.write position s).2 := by
  obtain ⟨cells, separator⟩ := t
  obtain ⟨_, separator'⟩ := u
  cases same
  rw [write, write]
  split
  · rw [erase, erase]
    dsimp only
    split
    · exact ⟨rfl, rfl⟩
    · split <;> exact ⟨rfl, rfl⟩
  · cases position with
    | negSucc gap => exact ⟨rfl, rfl⟩
    | ofNat i =>
      rw [put, put]
      split <;> exact ⟨rfl, rfl⟩

end Tape

namespace Head

variable {h g : Head} {patience : Nat}

/-- Two heads that see and count the same. Their journals and separators may differ. -/
structure Alike (h g : Head) : Prop where
  cells : h.tape.cells = g.tape.cells
  position : h.position = g.position
  symbol : h.symbol = g.symbol
  steps : h.steps = g.steps
  stepLimit : h.stepLimit = g.stepLimit

section Acts

theorem Alike.write (alike : h.Alike g) (s : Symbol) : (h.write s).Alike (g.write s) := by
  obtain ⟨t, position, _, _, _, _⟩ := h
  obtain ⟨u, _, _, _, _, _⟩ := g
  obtain ⟨same, rfl, -, rfl, rfl⟩ := alike
  obtain ⟨cells, moved⟩ := Tape.write_of_cells same position s
  exact ⟨cells, moved, (Tape.read_of_cells cells _).trans (congrArg _ moved), rfl, rfl⟩

theorem Alike.mark (alike : h.Alike g) (w : List Symbol) : (h.mark w).Alike (g.mark w) := by
  induction w generalizing h g with
  | nil => exact alike
  | cons s w ih => exact ih (alike.write s)

theorem Alike.move (alike : h.Alike g) (d : Direction) : (h.move d).Alike (g.move d) := by
  obtain ⟨t, position, _, _, _, _⟩ := h
  obtain ⟨u, _, _, _, _, _⟩ := g
  obtain ⟨same, rfl, -, rfl, rfl⟩ := alike
  exact ⟨same, rfl, Tape.read_of_cells same _, rfl, rfl⟩

theorem Alike.act (alike : h.Alike g) (a : Act) : (h.act a).Alike (g.act a) := by
  cases a with
  | write s => exact alike.write s
  | move d => exact alike.move d
  | change =>
    exact ⟨alike.cells, alike.position, alike.symbol, alike.steps, alike.stepLimit⟩

theorem Alike.fuse (alike : h.Alike g) : h.fuse = g.fuse := by
  rw [Head.fuse, Head.fuse, alike.stepLimit, alike.steps]

theorem Alike.turns (alike : h.Alike g) (patience : Nat) : h.turns patience = g.turns patience := by
  rw [Head.turns, Head.turns, alike.stepLimit, alike.steps]

end Acts

end Head

theorem Control.drive_alike {σ ρ : Type} (control : Control σ ρ) (turns : Nat) (q : σ) {h g : Head}
    (alike : h.Alike g) : (control.drive turns q h).1 = (control.drive turns q g).1 ∧
      control.acts turns q h = control.acts turns q g := by
  induction turns generalizing q h g with
  | zero => exact ⟨rfl, rfl⟩
  | succ turns ih =>
    -- Both see the same symbol, so both take the same turn.
    cases turn : control q h.symbol with
    | finish w result =>
      have turn' := alike.symbol ▸ turn
      rw [drive_finish turn, drive_finish turn', acts_finish turn, acts_finish turn']
      exact ⟨rfl, rfl⟩
    | refuse fault =>
      have turn' := alike.symbol ▸ turn
      rw [drive_refuse turn, drive_refuse turn', acts_refuse turn, acts_refuse turn']
      exact ⟨rfl, rfl⟩
    | go w d next =>
      have turn' := alike.symbol ▸ turn
      have moved := (alike.mark w).move d
      cases fuse : ((h.mark w).move d).fuse with
      | some fault =>
        have fuse' := moved.fuse ▸ fuse
        rw [drive_blown turn fuse, drive_blown turn' fuse', acts_blown turn fuse,
          acts_blown turn' fuse']
        exact ⟨rfl, rfl⟩
      | none =>
        have fuse' := moved.fuse ▸ fuse
        obtain ⟨answer, acts⟩ := ih next moved
        rw [drive_go turn fuse, drive_go turn' fuse', acts_go turn fuse, acts_go turn' fuse', acts]
        exact ⟨answer, rfl⟩

namespace Head

variable {h g : Head} {patience : Nat}

theorem Alike.afterMove (alike : h.Alike g) : h.afterMove.1 = g.afterMove.1 := by
  rw [Head.afterMove, Head.afterMove, alike.fuse]
  split <;> rfl

theorem Alike.perform (alike : h.Alike g) (patience : Nat) (command : Command) :
    (h.perform patience command).1 = (g.perform patience command).1 ∧
      h.commandActs patience command = g.commandActs patience command := by
  cases command with
  | write s => exact ⟨rfl, rfl⟩
  | move d => exact ⟨(alike.move d).afterMove, rfl⟩
  | writeThenMove s d => exact ⟨((alike.write s).move d).afterMove, rfl⟩
  | scan d targets =>
    obtain ⟨answer, acts⟩ :=
      (Control.scan d targets).drive_alike (h.turns patience) () alike
    rw [perform_scan, perform_scan, commandActs, commandActs, acts, scan, scan, answer,
      alike.turns patience]
    exact ⟨rfl, rfl⟩

end Head

namespace Machine

variable {m other : Machine} {patience : Nat}

structure Alike (m other : Machine) : Prop where
  head : m.head.Alike other.head
  phase : m.phase = other.phase

section Runs

theorem Alike.act (alike : m.Alike other) (a : Act) : (m.act a).Alike (other.act a) := by
  have head := alike.head.act a
  cases a with
  | write | move => exact ⟨head, alike.phase⟩
  | change => exact ⟨head, rfl⟩

theorem Alike.replay (alike : m.Alike other) (acts : List Act) :
    (m.replay acts).Alike (other.replay acts) := by
  induction acts generalizing m other with
  | nil => exact alike
  | cons a acts ih => exact ih (alike.act a)

theorem Alike.advance (alike : m.Alike other) (patience : Nat) :
    (m.advance patience).1 = (other.advance patience).1 ∧
      m.advanceActs patience = other.advanceActs patience := by
  have driven : (m.driven patience).1 = (other.driven patience).1 ∧
      m.drivenActs patience = other.drivenActs patience := by
    rw [Machine.driven, Machine.driven, drivenActs, drivenActs, alike.head.turns, alike.phase]
    exact table.drive_alike _ _ alike.head
  rw [outcome_advance, outcome_advance, advanceActs, advanceActs, driven.1, driven.2, alike.phase]
  exact ⟨rfl, rfl⟩

theorem Alike.advance_snd (alike : m.Alike other) (patience : Nat) :
    (m.advance patience).2.Alike (other.advance patience).2 := by
  rw [← replay_advanceActs, ← replay_advanceActs, (alike.advance patience).2]
  exact alike.replay _

theorem Alike.advanceUntilDone (alike : m.Alike other) (patience count : Nat) :
    (m.advanceUntilDone patience count).1 = (other.advanceUntilDone patience count).1 ∧
      m.actsUpTo patience count = other.actsUpTo patience count := by
  induction count generalizing m other with
  | zero => exact ⟨rfl, rfl⟩
  | succ count ih =>
    obtain ⟨answer, acts⟩ := alike.advance patience
    have there := alike.advance_snd patience
    have phase := alike.phase
    by_cases finished : m.phase = .done
    · have finished' := phase ▸ finished
      rw [advanceUntilDone_of_done finished, advanceUntilDone_of_done finished', actsUpTo, actsUpTo,
        if_pos finished, if_pos finished']
      exact ⟨rfl, rfl⟩
    · have live' := phase ▸ finished
      rcases advanced : m.advance patience with ⟨q | fault | _, after⟩ <;>
        rcases advanced' : other.advance patience with ⟨q' | fault' | _, after'⟩ <;>
        rw [advanced, advanced'] at answer there <;> cases answer
      · obtain ⟨ended, rest⟩ := ih there
        rw [advanceUntilDone_of_advance finished advanced,
          advanceUntilDone_of_advance live' advanced', actsUpTo_of_advance finished advanced,
          actsUpTo_of_advance live' advanced', acts, rest]
        exact ⟨ended, rfl⟩
      · rw [advanceUntilDone_of_failed finished advanced, advanceUntilDone_of_failed live' advanced',
          actsUpTo_of_stop finished (by simp [advanced]),
          actsUpTo_of_stop live' (by simp [advanced']), acts]
        exact ⟨rfl, rfl⟩
      · rw [advanceUntilDone_of_unfinished finished advanced,
          advanceUntilDone_of_unfinished live' advanced',
          actsUpTo_of_stop finished (by simp [advanced]),
          actsUpTo_of_stop live' (by simp [advanced']), acts]
        exact ⟨rfl, rfl⟩

theorem Alike.calculate (alike : m.Alike other) (patience : Nat) :
    (m.calculate patience).1 = (other.calculate patience).1 ∧
      m.acts patience = other.acts patience := by
  rw [Machine.calculate, Machine.calculate, Machine.acts, Machine.acts, advances, advances,
    alike.head.turns]
  exact alike.advanceUntilDone patience _

theorem Alike.operate (alike : m.Alike other) (patience : Nat) (operation : Operation) :
    (m.operate patience operation).1 = (other.operate patience operation).1 ∧
      m.operationActs patience operation = other.operationActs patience operation := by
  rcases operation with command | _ | _
  · obtain ⟨answer, acts⟩ := alike.head.perform patience command
    exact ⟨congrArg Answer.performed answer, acts⟩
  · obtain ⟨answer, acts⟩ := alike.advance patience
    exact ⟨congrArg Answer.advanced answer, acts⟩
  · obtain ⟨answer, acts⟩ := alike.calculate patience
    exact ⟨congrArg Answer.calculated answer, acts⟩

theorem Alike.follow (alike : m.Alike other) (patience : Nat) (operations : List Operation) :
    (m.follow patience operations).Alike (other.follow patience operations) ∧
      m.followActs patience operations = other.followActs patience operations := by
  induction operations generalizing m other with
  | nil => exact ⟨alike, rfl⟩
  | cons operation operations ih =>
    have acts := (alike.operate patience operation).2
    have after : (m.operate patience operation).2.Alike (other.operate patience operation).2 := by
      rw [← replay_operationActs, ← replay_operationActs, acts]
      exact alike.replay _
    obtain ⟨there, rest⟩ := ih after
    rw [followActs, followActs, acts, rest]
    exact ⟨there, rfl⟩

end Runs

end Machine

namespace Head

variable {h g : Head}

section Notes

def stops : Head → List Act → List Head
  | _, [] => []
  | h, a :: acts =>
    if a.isMove then h.act a :: stops (h.act a) acts else stops (h.act a) acts

def moved (h : Head) : Event := .moved h.render h.steps h.position

theorem steps_stops (h : Head) (acts : List Act) :
    (h.stops acts).map steps = List.range' (h.steps + 1) (acts.countP Act.isMove) := by
  induction acts generalizing h with
  | nil => rfl
  | cons a acts ih =>
    cases a with
    | move d =>
      rw [List.countP_cons_of_pos rfl, List.range'_succ]
      exact congrArg (List.cons (h.steps + 1)) (ih (h.move d))
    | write | change =>
      rw [List.countP_cons_of_neg Bool.false_ne_true]
      exact ih _

theorem filter_isMove_notes (step : h.journal.mode = .step) (acts : List Act) :
    (h.notes acts).filter Event.isMove = (h.stops acts).map moved := by
  induction acts generalizing h with
  | nil => rfl
  | cons a acts ih =>
    have mode := (h.mode_act a).trans step
    rw [notes, List.filter_append, ih mode]
    cases a with
    | write => rfl
    | move d =>
      simp only [act] at mode
      have now : h.noted (.move d) = [(h.move d).moved] := by simp [noted, mode, moved]
      rw [now]
      rfl
    | change before after =>
      by_cases same : before = after <;>
        simp [noted, same, stops, Event.isMove, Act.isMove]

theorem notes_of_run (alike : h.Alike g) (step : h.journal.mode = .step)
    (run : g.journal.mode = .run) (acts : List Act) :
    g.notes acts = (h.notes acts).filter (!·.isMove) := by
  induction acts generalizing h g with
  | nil => rfl
  | cons a acts ih =>
    have mode := (h.mode_act a).trans step
    have mode' := (g.mode_act a).trans run
    rw [notes, notes, List.filter_append, ih (alike.act a) mode mode']
    congr 1
    cases a with
    | write => rfl
    | move d =>
      simp only [act] at mode mode'
      simp [noted, mode, mode', Event.isMove]
    | change before after =>
      have length : g.tape.length = h.tape.length := congrArg Array.size alike.cells.symm
      by_cases same : before = after <;>
        simp [noted, same, alike.steps, length, Event.isMove]

end Notes

end Head

namespace Machine

variable {m : Machine} {patience : Nat}

section Modes

def withMode (m : Machine) (mode : Mode) : Machine :=
  { m with head := { m.head with journal := { m.head.journal with mode } } }

/-- Two machines that have come from `m` by the same acts, the one with its moves noted and the other
without. -/
structure Watched (m : Machine) (acts : List Act) (stepped ran : Machine) : Prop where
  tape : ran.head.tape = stepped.head.tape
  position : ran.head.position = stepped.head.position
  symbol : ran.head.symbol = stepped.head.symbol
  phase : ran.phase = stepped.phase
  steps : ran.steps = stepped.steps
  replayed : stepped = m.replay acts
  /-- A move is noted in the one journal only, the other notes are in both. -/
  journal : ∃ noted : List Event,
    stepped.head.journal.entries.toList = m.head.journal.entries.toList ++ noted ∧
      ran.head.journal.entries.toList =
        m.head.journal.entries.toList ++ noted.filter (!·.isMove) ∧
      noted.filter Event.isMove = (m.head.stops acts).map Head.moved
  numbers : (m.head.stops acts).map Head.steps =
    List.range' (m.steps + 1) (stepped.steps - m.steps)

theorem alike_withMode (m : Machine) (mode other : Mode) :
    (m.withMode mode).Alike (m.withMode other) := ⟨⟨rfl, rfl, rfl, rfl, rfl⟩, rfl⟩

theorem watched_replay (m : Machine) (acts : List Act) :
    (m.withMode .step).Watched acts ((m.withMode .step).replay acts)
      ((m.withMode .run).replay acts) := by
  have start := m.alike_withMode .step .run
  have alike := start.replay acts
  have separator := (m.withMode .step).head.separator_replay acts
  have separator' := (m.withMode .run).head.separator_replay acts
  have spent := (m.withMode .step).head.steps_replay acts
  refine ⟨?_, alike.head.position.symm, alike.head.symbol.symm, alike.phase.symm,
    alike.head.steps.symm, rfl, ?_, ?_⟩
  · have cells := alike.head.cells
    rw [head_replay, head_replay] at cells ⊢
    exact congrArg₂ Tape.mk cells.symm (separator'.trans separator.symm)
  · refine ⟨(m.withMode .step).head.notes acts, ?_, ?_, Head.filter_isMove_notes rfl acts⟩
    · rw [head_replay]
      exact Head.entries_replay _ acts
    · rw [head_replay, ← Head.notes_of_run start.head rfl rfl acts]
      exact Head.entries_replay _ acts
  · rw [Head.steps_stops, Machine.steps, Machine.steps, head_replay, spent, Nat.add_sub_cancel_left]

end Modes

end Machine

section Separators

variable {separator other : Char}

def relabel (separator other c : Char) : Char := if c = separator then other else c

theorem Symbol.relabel_glyph (free : isReserved separator = false) (other : Char) (s : Symbol) :
    relabel separator other (s.glyph separator) = s.glyph other := by
  unfold relabel
  by_cases chosen : s = .delimiter
  · subst chosen
    exact if_pos rfl
  · have fixed := ofFixedGlyph_glyph separator chosen
    have elsewhere : s.glyph separator ≠ separator := by
      intro same
      rw [same] at fixed
      simp [isReserved, fixed] at free
    rw [if_neg elsewhere]
    cases s <;> first | rfl | exact absurd rfl chosen

theorem relabel_headGlyph (free : Symbol.isReserved separator = false) (other : Char) :
    relabel separator other Symbol.headGlyph = Symbol.headGlyph := by
  apply if_neg
  rintro rfl
  cases free

namespace Tape

variable {t u : Tape}

theorem content_relabel (free : Symbol.isReserved t.separator = false) (same : t.cells = u.cells) :
    u.content = String.ofList (t.content.toList.map (relabel t.separator u.separator)) := by
  simp only [content, String.toList_ofList, List.map_map, ← same]
  congr 1
  exact List.map_congr_left fun s _ => (Symbol.relabel_glyph free u.separator s).symm

theorem window_relabel (free : Symbol.isReserved t.separator = false) (same : t.cells = u.cells)
    (start : Int) (count : Nat) :
    u.window start count = (t.window start count).map (relabel t.separator u.separator) := by
  rw [window, window, List.map_map]
  apply List.map_congr_left
  intro k _
  rw [← read_of_cells same]
  exact (Symbol.relabel_glyph free u.separator _).symm

theorem render_relabel (free : Symbol.isReserved t.separator = false) (same : t.cells = u.cells)
    (position : Int) : u.render position =
      String.ofList ((t.render position).toList.map (relabel t.separator u.separator)) := by
  have length : u.length = t.length := congrArg Array.size same.symm
  simp only [render, String.toList_ofList, List.map_append, List.map_cons, length,
    relabel_headGlyph free, window_relabel free same]

end Tape

namespace Machine

variable {m twin : Machine}

/-- The same machine but for the separator that its tape is printed with. -/
structure Reprinted (separator other : Char) (m twin : Machine) : Prop where
  phase : twin.phase = m.phase
  steps : twin.steps = m.steps
  position : twin.head.position = m.head.position
  cells : twin.head.tape.cells = m.head.tape.cells
  content : twin.content = String.ofList (m.content.toList.map (relabel separator other))
  render : twin.render = String.ofList (m.render.toList.map (relabel separator other))

theorem Alike.reprinted (alike : m.Alike twin)
    (free : Symbol.isReserved m.head.tape.separator = false) :
    Reprinted m.head.tape.separator twin.head.tape.separator m twin := by
  have cells := alike.head.cells
  refine ⟨alike.phase.symm, alike.head.steps.symm, alike.head.position.symm, cells.symm,
    Tape.content_relabel free cells, ?_⟩
  rw [render, Head.render, ← alike.head.position]
  exact Tape.render_relabel free cells m.head.position

theorem separator_follow (m : Machine) (patience : Nat) (operations : List Operation) :
    (m.follow patience operations).head.tape.separator = m.head.tape.separator := by
  rw [← replay_followActs, head_replay, Head.separator_replay]

theorem ofInput_relabel {left right : List Char} {config : Config}
    (built : ofInput (String.ofList (left ++ config.separator :: right)) config = .ok m)
    (free : Symbol.isReserved other = false) :
    ∃ twin, ofInput (String.ofList (left ++ other :: right)) { config with separator := other } =
        .ok twin ∧
      m.Alike twin ∧ m.head.tape.separator = config.separator ∧ twin.head.tape.separator = other := by
  obtain ⟨chosen, accepted, tape, laid, rfl⟩ := ofInput_eq_ok_iff.mp built
  obtain ⟨first, second, nonempty, nonempty', same⟩ := accepts_inputText_iff.mp accepted
  -- It stands in one place only, so the two parts are the two numerals.
  obtain ⟨rfl, -, rfl⟩ := (List.append_cons_inj_of_notMem (separator_notMem chosen first)
    (separator_notMem chosen second)).mp (String.ofList_injective same).symm
  cases (Tape.ofText_inputText chosen).1.symm.trans laid
  obtain ⟨laid', -⟩ := @Tape.ofText_inputText first second _ free
  have accepted' : accepts other (inputText first second other).toList :=
    accepts_inputText_iff.mpr ⟨first, second, nonempty, nonempty', rfl⟩
  exact ⟨_, ofInput_eq_ok_iff.mpr ⟨free, accepted', _, laid', rfl⟩, ⟨⟨rfl, rfl, rfl, rfl, rfl⟩, rfl⟩,
    rfl, rfl⟩

/-- Nothing depends on what is observed of a run. With the moves noted or without, the same is
answered and done, and the notes of the moves are complete and in order. With one separator or with
another, only the tape is printed otherwise. -/
theorem follow_unaffected :
    (∀ (m : Machine) (patience : Nat) (operations : List Operation),
      (∀ operation,
        (((m.withMode .step).follow patience operations).operate patience operation).1 =
          (((m.withMode .run).follow patience operations).operate patience operation).1) ∧
        (m.withMode .step).Watched ((m.withMode .step).followActs patience operations)
          ((m.withMode .step).follow patience operations)
          ((m.withMode .run).follow patience operations)) ∧
    ∀ (left right : List Char) (config : Config) (other : Char),
      Symbol.isReserved config.separator = false → Symbol.isReserved other = false → ∀ m,
        ofInput (String.ofList (left ++ config.separator :: right)) config = .ok m →
          ∃ twin, ofInput (String.ofList (left ++ other :: right))
              { config with separator := other } = .ok twin ∧
            ∀ (patience : Nat) (operations : List Operation),
              (∀ operation, ((m.follow patience operations).operate patience operation).1 =
                ((twin.follow patience operations).operate patience operation).1) ∧
                Reprinted config.separator other (m.follow patience operations)
                  (twin.follow patience operations) := by
  constructor
  · intro m patience operations
    obtain ⟨alike, acts⟩ := (m.alike_withMode .step .run).follow patience operations
    refine ⟨fun operation => (alike.operate patience operation).1, ?_⟩
    have watched := m.watched_replay ((m.withMode .step).followActs patience operations)
    rw [replay_followActs, acts, replay_followActs, ← acts] at watched
    exact watched
  · intro left right config other free free' m built
    obtain ⟨twin, built', start, separator, separator'⟩ := ofInput_relabel built free'
    refine ⟨twin, built', fun patience operations => ?_⟩
    obtain ⟨alike, -⟩ := start.follow patience operations
    refine ⟨fun operation => (alike.operate patience operation).1, ?_⟩
    rw [← separator_follow m patience operations] at separator
    rw [← separator_follow twin patience operations] at separator'
    have reprinted := alike.reprinted (separator ▸ free)
    rwa [separator, separator'] at reprinted

/-- A run that is cut short and driven on by hand, with a star in place of the letter. -/
theorem follow_unaffected_star : ∃ m twin : Machine,
    ofInput "11x10" { mode := .step, stepLimit := some 9 } = .ok m ∧
      ofInput "11*10" { separator := '*', mode := .step, stepLimit := some 9 } = .ok twin ∧
      Reprinted 'x' '*' (m.follow 0 [.call .calculate, .command (.move .left), .call .advance])
        (twin.follow 0 [.call .calculate, .command (.move .left), .call .advance]) ∧
      ((m.withMode .run).follow 0 [.call .calculate]).head.tape =
        ((m.withMode .step).follow 0 [.call .calculate]).head.tape := by
  obtain ⟨modes, separators⟩ := follow_unaffected
  obtain ⟨m, built, -⟩ := @ofInput_inputText [true, true] [true, false]
    { mode := .step, stepLimit := some 9 } (by decide) (by decide) (by decide)
  obtain ⟨twin, built', runs⟩ := separators ['1', '1'] ['1', '0']
    { mode := .step, stepLimit := some 9 } '*' (by decide) (by decide) m built
  exact ⟨m, twin, built, built', (runs 0 _).2, (modes m 0 [.call .calculate]).2.tape⟩

end Machine

end Separators

end TuringMultiplier
