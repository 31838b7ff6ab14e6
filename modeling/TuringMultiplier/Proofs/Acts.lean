import TuringMultiplier.Proofs.Advance

/-! A run as the list of its acts: the writes, the moves and the changes of phase, in their order. The
list is enough to get from the machine before a run to the machine behind it, journal included, so
what holds from act to act holds at every moment of a run, also of one that was cut short. -/

set_option autoImplicit false

namespace TuringMultiplier

open Procedure

inductive Act where
  | write (s : Symbol)
  | move (direction : Direction)
  | change (before after : Phase)
  deriving DecidableEq, Repr

namespace Act

def isMove : Act → Bool
  | move _ => true
  | write _ | change .. => false

def ofMark (symbols : List Symbol) : List Act := symbols.map write

end Act

def Event.isMove : Event → Bool
  | moved .. => true
  | phaseChanged .. => false

namespace Head

def act (h : Head) : Act → Head
  | .write s => h.write s
  | .move direction => h.move direction
  | .change before after => h.note before after

def replay (h : Head) (acts : List Act) : Head := acts.foldl act h

@[simp] theorem replay_nil (h : Head) : h.replay [] = h := rfl

@[simp] theorem replay_cons (h : Head) (a : Act) (acts : List Act) :
    h.replay (a :: acts) = (h.act a).replay acts := rfl

@[simp] theorem replay_append (h : Head) (acts more : List Act) :
    h.replay (acts ++ more) = (h.replay acts).replay more := List.foldl_append

@[simp] theorem replay_ofMark (h : Head) (w : List Symbol) :
    h.replay (Act.ofMark w) = h.mark w := by
  induction w generalizing h with
  | nil => rfl
  | cons s w ih => exact ih (h.write s)

theorem steps_replay (h : Head) (acts : List Act) :
    (h.replay acts).steps = h.steps + acts.countP Act.isMove := by
  induction acts generalizing h with
  | nil => rfl
  | cons a acts ih =>
    rw [replay_cons, ih, List.countP_cons]
    cases a with
    | move direction => exact (Nat.add_right_comm ..).trans (Nat.add_assoc ..)
    | write | change => rfl

theorem separator_replay (h : Head) (acts : List Act) :
    (h.replay acts).tape.separator = h.tape.separator := by
  induction acts generalizing h with
  | nil => rfl
  | cons a acts ih =>
    rw [replay_cons, ih]
    cases a with
    | write s => exact h.separator_mark [s]
    | move | change => rfl

theorem stepLimit_replay (h : Head) (acts : List Act) :
    (h.replay acts).stepLimit = h.stepLimit := by
  induction acts generalizing h with
  | nil => rfl
  | cons a acts ih =>
    rw [replay_cons, ih]
    cases a <;> rfl

theorem coherent_replay {h : Head} (coherent : h.Coherent) (acts : List Act) :
    (h.replay acts).Coherent := by
  induction acts generalizing h with
  | nil => exact coherent
  | cons a acts ih =>
    apply ih
    cases a with
    | write s => exact h.coherent_write s
    | move d => exact h.coherent_move d
    | change => exact coherent

section Notes

def noted (h : Head) : Act → List Event
  | .write _ => []
  | .move direction =>
    let h := h.move direction
    if h.journal.mode = .step then [.moved h.render h.steps h.position] else []
  | .change before after =>
    if before = after then []
    else [.phaseChanged before after h.steps h.tape.length]

def notes : Head → List Act → List Event
  | _, [] => []
  | h, a :: acts => h.noted a ++ notes (h.act a) acts

theorem mode_act (h : Head) (a : Act) : (h.act a).journal.mode = h.journal.mode := by
  cases a with
  | write => rfl
  | move =>
    simp only [act, move, Journal.noteMove]
    split <;> rfl
  | change before after =>
    by_cases same : before = after <;> simp [act, note, Journal.notePhase, same]

theorem entries_act (h : Head) (a : Act) :
    (h.act a).journal.entries.toList = h.journal.entries.toList ++ h.noted a := by
  cases a with
  | write => simp [act, noted, write]
  | move direction =>
    cases step : h.journal.mode <;>
      simp [act, noted, move, Journal.noteMove, step, render]
  | change before after =>
    by_cases same : before = after <;> simp [act, noted, note, Journal.notePhase, same]

theorem entries_replay (h : Head) (acts : List Act) :
    (h.replay acts).journal.entries.toList = h.journal.entries.toList ++ h.notes acts := by
  induction acts generalizing h with
  | nil => simp [notes]
  | cons a acts ih => rw [replay_cons, ih, entries_act, notes, List.append_assoc]

theorem notes_append (h : Head) (acts more : List Act) :
    h.notes (acts ++ more) = h.notes acts ++ (h.replay acts).notes more := by
  induction acts generalizing h with
  | nil => rfl
  | cons a acts ih => rw [List.cons_append, notes, ih, notes, List.append_assoc, replay_cons]

theorem mode_replay (h : Head) (acts : List Act) :
    (h.replay acts).journal.mode = h.journal.mode := by
  induction acts generalizing h with
  | nil => rfl
  | cons a acts ih => rw [replay_cons, ih, mode_act]

theorem notes_move {h : Head} (step : h.journal.mode = .step) (acts : List Act) (d : Direction) :
    h.notes (acts ++ [.move d]) = h.notes acts ++ [.moved ((h.replay acts).move d).render
      ((h.replay acts).steps + 1) ((h.replay acts).move d).position] := by
  have mode : ((h.replay acts).move d).journal.mode = .step :=
    ((h.replay acts).mode_act (.move d)).trans ((h.mode_replay acts).trans step)
  rw [notes_append]
  simp [notes, noted, mode]

theorem countP_isMove_notes {h : Head} (step : h.journal.mode = .step) (acts : List Act) :
    (h.notes acts).countP Event.isMove = acts.countP Act.isMove := by
  induction acts generalizing h with
  | nil => rfl
  | cons a acts ih =>
    rw [notes, List.countP_append, List.countP_cons, ih ((h.mode_act a).trans step), Nat.add_comm]
    congr 1
    cases a with
    | write => rfl
    | move direction =>
      have mode := (h.mode_act (.move direction)).trans step
      simp only [act] at mode
      simp [noted, mode, Event.isMove, Act.isMove]
    | change before after =>
      by_cases same : before = after <;> simp [noted, same, Event.isMove, Act.isMove]

theorem mem_notes_move {h : Head} {acts : List Act} {event : Event} (noted : event ∈ h.notes acts)
    (moved : event.isMove) : ∃ done direction rest, acts = done ++ .move direction :: rest ∧
      event = .moved ((h.replay done).move direction).render ((h.replay done).steps + 1)
        ((h.replay done).move direction).position := by
  induction acts generalizing h with
  | nil => cases noted
  | cons a acts ih =>
    rcases List.mem_append.mp noted with now | later
    · cases a with
      | write => cases now
      | move direction =>
        refine ⟨[], direction, acts, rfl, ?_⟩
        simp only [Head.noted] at now
        split at now
        · simpa using now
        · cases now
      | change before after =>
        simp only [Head.noted] at now
        split at now
        · cases now
        · cases List.mem_singleton.mp now
          cases moved
    · obtain ⟨done, direction, rest, rfl, same⟩ := ih later
      exact ⟨a :: done, direction, rest, rfl, same⟩

end Notes

end Head

namespace Control

variable {σ ρ : Type}

def acts (control : Control σ ρ) : Nat → σ → Head → List Act
  | 0, _, _ => []
  | turns + 1, state, h =>
    match control state h.symbol with
    | .finish writes _ => Act.ofMark writes
    | .refuse _ => []
    | .go writes direction next =>
      let h := (h.mark writes).move direction
      Act.ofMark writes ++ .move direction ::
        match h.fuse with
        | some _ => []
        | none => acts control turns next h

variable {control : Control σ ρ} {turns : Nat} {q r : σ} {h : Head} {w : List Symbol}
  {d : Direction} {result : ρ} {fault : Fault}

theorem acts_finish (turn : control q h.symbol = .finish w result) :
    control.acts (turns + 1) q h = Act.ofMark w := by
  rw [acts, turn]

theorem acts_refuse (turn : control q h.symbol = .refuse fault) :
    control.acts (turns + 1) q h = [] := by
  rw [acts, turn]

theorem acts_blown (turn : control q h.symbol = .go w d r)
    (blown : ((h.mark w).move d).fuse = some fault) :
    control.acts (turns + 1) q h = Act.ofMark w ++ [.move d] := by
  rw [acts, turn]
  dsimp only
  rw [blown]

theorem acts_go (turn : control q h.symbol = .go w d r)
    (unblown : ((h.mark w).move d).fuse = none) :
    control.acts (turns + 1) q h =
      Act.ofMark w ++ .move d :: control.acts turns r ((h.mark w).move d) := by
  rw [acts, turn]
  dsimp only
  rw [unblown]

end Control

namespace Machine

variable {m : Machine}

def act (m : Machine) : Act → Machine
  | .change before after => ⟨m.head.note before after, after⟩
  | a => ⟨m.head.act a, m.phase⟩

def replay (m : Machine) (acts : List Act) : Machine := acts.foldl act m

@[simp] theorem replay_nil (m : Machine) : m.replay [] = m := rfl

@[simp] theorem replay_cons (m : Machine) (a : Act) (acts : List Act) :
    m.replay (a :: acts) = (m.act a).replay acts := rfl

@[simp] theorem replay_append (m : Machine) (acts more : List Act) :
    m.replay (acts ++ more) = (m.replay acts).replay more := List.foldl_append

@[simp] theorem replay_ofMark (m : Machine) (w : List Symbol) :
    m.replay (Act.ofMark w) = ⟨m.head.mark w, m.phase⟩ := by
  induction w generalizing m with
  | nil => rfl
  | cons s w ih => exact ih ⟨m.head.write s, m.phase⟩

@[simp] theorem head_act (m : Machine) (a : Act) : (m.act a).head = m.head.act a := by
  cases a <;> rfl

@[simp] theorem head_replay (m : Machine) (acts : List Act) :
    (m.replay acts).head = m.head.replay acts := by
  induction acts generalizing m with
  | nil => rfl
  | cons a acts ih => rw [replay_cons, ih, head_act, Head.replay_cons]

end Machine

namespace Control

variable {σ ρ : Type}

theorem replay_acts (control : Control σ ρ) (turns : Nat) (q : σ) (h : Head) (p : Phase) :
    (Machine.mk h p).replay (control.acts turns q h) = ⟨(control.drive turns q h).2, p⟩ := by
  induction turns generalizing q h with
  | zero => rfl
  | succ turns ih =>
    cases turn : control q h.symbol with
    | finish w result =>
      rw [acts_finish turn, drive_finish turn]
      exact Machine.replay_ofMark ⟨h, p⟩ w
    | refuse fault =>
      rw [acts_refuse turn, drive_refuse turn]
      rfl
    | go w d next =>
      cases fuse : ((h.mark w).move d).fuse with
      | some fault =>
        rw [acts_blown turn fuse, drive_blown turn fuse, Machine.replay_append,
          Machine.replay_ofMark]
        rfl
      | none =>
        rw [acts_go turn fuse, drive_go turn fuse, Machine.replay_append, Machine.replay_ofMark]
        exact ih next _

end Control

namespace Machine

variable {m after : Machine} {q : Phase} {last : Head} {fault : Fault} {patience count : Nat}

def drivenActs (m : Machine) (patience : Nat) : List Act :=
  table.acts (m.head.turns patience) (entry m.phase) m.head

theorem replay_drivenActs (m : Machine) (patience : Nat) :
    m.replay (m.drivenActs patience) = ⟨(m.driven patience).2, m.phase⟩ :=
  Control.replay_acts table _ _ m.head m.phase

def advanceActs (m : Machine) (patience : Nat) : List Act :=
  match (m.driven patience).1 with
  | .done next => m.drivenActs patience ++ [.change m.phase next]
  | .failed _ | .unfinished => m.drivenActs patience

theorem replay_advanceActs (m : Machine) (patience : Nat) :
    m.replay (m.advanceActs patience) = (m.advance patience).2 := by
  have driven := replay_drivenActs m patience
  rcases ended : m.driven patience with ⟨q | fault | _, last⟩ <;> rw [ended] at driven <;>
    rw [advanceActs, ended]
  · rw [replay_append, driven, advance_of_done ended]
    rfl
  · rw [advance_of_failed ended]
    exact driven
  · rw [advance_of_unfinished ended]
    exact driven

def actsUpTo (patience : Nat) : Nat → Machine → List Act
  | 0, _ => []
  | count + 1, m =>
    if m.phase = .done then []
    else
      m.advanceActs patience ++
        match m.advance patience with
        | (.done _, m) => actsUpTo patience count m
        | _ => []

theorem actsUpTo_of_advance (live : m.phase ≠ .done)
    (advanced : m.advance patience = (.done q, after)) :
    m.actsUpTo patience (count + 1) =
      m.advanceActs patience ++ after.actsUpTo patience count := by
  rw [actsUpTo, if_neg live, advanced]

theorem actsUpTo_of_stop (live : m.phase ≠ .done)
    (stopped : ∀ q, (m.advance patience).1 ≠ .done q) :
    m.actsUpTo patience (count + 1) = m.advanceActs patience := by
  rw [actsUpTo, if_neg live]
  split
  · next q _ advanced => exact absurd (congrArg Prod.fst advanced) (stopped q)
  · exact List.append_nil _

theorem replay_actsUpTo (patience count : Nat) (m : Machine) :
    m.replay (m.actsUpTo patience count) = (m.advanceUntilDone patience count).2 := by
  induction count generalizing m with
  | zero => rfl
  | succ count ih =>
    have advance := replay_advanceActs m patience
    rw [actsUpTo, advanceUntilDone]
    split
    · rfl
    · rw [replay_append, advance]
      rcases m.advance patience with ⟨q | fault | _, after⟩
      · exact ih after
      · rfl
      · rfl

def acts (m : Machine) (patience : Nat) : List Act := m.actsUpTo patience (m.advances patience)

theorem replay_acts (m : Machine) (patience : Nat) :
    m.replay (m.acts patience) = (m.calculate patience).2 :=
  replay_actsUpTo patience (m.advances patience) m

end Machine

end TuringMultiplier
