import TuringMultiplier.Proofs.Scans

/-! Commands to one head, whatever they are and whatever became of the ones before. Each is a list of
acts, and to every act the tape answers as one that is infinite both ways and has no numbers but those
counted from the head. -/

set_option autoImplicit false

namespace TuringMultiplier

/-- What an act does to the cells of an endless tape, counted from the head. -/
def Act.onCells : Act → (Int → Symbol) → Int → Symbol
  | .move d, cells => fun i => cells (i + d.offset)
  | .write s, cells => Function.update cells 0 s
  | .change .., cells => cells

namespace Head

variable {h : Head}

section SingleActs

/-- Left of its tape a head that writes a blank takes the first cell away. -/
def TakesFirst (h : Head) (a : Act) : Prop :=
  a = .write .blank ∧ h.position < 0 ∧ ¬ h.tape.isEmpty

instance (h : Head) (a : Act) : Decidable (h.TakesFirst a) :=
  inferInstanceAs (Decidable (_ ∧ _))

def found (h : Head) (a : Act) : Int → Symbol :=
  if h.TakesFirst a then Function.update h.view (-h.position) .blank else h.view

theorem view_write (h : Head) (s : Symbol) (i : Int) :
    (h.write s).view i =
      if i = 0 then s
      else if s = .blank ∧ h.position < 0 ∧ h.position + i = 0 then .blank
      else h.view i := by
  have read := (h.tape.writes_write h.position s).read (h.position + i)
  rw [show h.position + i + ((h.tape.write h.position s).2 - h.position) =
    (h.tape.write h.position s).2 + i by omega] at read
  simpa [write, view] using read

theorem view_of_isEmpty (empty : h.tape.isEmpty) (i : Int) : h.view i = .blank := by
  rw [Tape.isEmpty, Array.isEmpty_iff_size_eq_zero] at empty
  by_cases before : h.position + i < 0
  · exact Tape.read_of_neg before
  · exact Tape.read_of_size_le (by omega)

theorem view_act (h : Head) (a : Act) : (h.act a).view = a.onCells (h.found a) := by
  funext i
  cases a with
  | move d =>
    have keeps : ¬ h.TakesFirst (.move d) := nofun
    rw [found, if_neg keeps]
    exact h.view_move d i
  | change => rfl
  | write s =>
    rw [act, view_write]
    -- On an empty tape the cell that would be taken away is a blank before and behind.
    simp only [Act.onCells, found, TakesFirst, Act.write.injEq]
    by_cases empty : h.tape.isEmpty
    · grind [view_of_isEmpty]
    · grind

end SingleActs

inductive Command.Makes : Command → List Act → Prop where
  | move {d : Direction} : Makes (.move d) [.move d]
  | write {s : Symbol} : Makes (.write s) [.write s]
  | writeThenMove {s : Symbol} {d : Direction} : Makes (.writeThenMove s d) [.write s, .move d]
  | scan {d : Direction} {targets : List Symbol} (count : Nat) :
      Makes (.scan d targets) (List.replicate count (.move d))

structure Carried (before : Head) (command : Command) (acts : List Act)
    (answer : Outcome (Option Symbol)) (after : Head) : Prop where
  made : command.Makes acts
  /-- A command that fails has made its write and all its moves like any other. -/
  replayed : after = before.replay acts
  coherent : after.Coherent
  stepLimit : after.stepLimit = before.stepLimit
  steps : after.steps = before.steps + acts.countP Act.isMove
  failed : ∀ fault, answer = .failed fault ↔ (∃ d, acts.getLast? = some (.move d)) ∧
    ∃ limit ∈ before.stepLimit, limit < after.steps ∧ fault = .stepLimitExceeded limit
  view : ∀ done a rest, acts = done ++ a :: rest →
    (before.replay (done ++ [a])).view = a.onCells ((before.replay done).found a)

variable {before fresh : Head} {fault : Fault}

theorem replay_performed (h : Head) (patience : Nat) (command : Command) :
    h.replay (h.commandActs patience command) = (h.perform patience command).2 := by
  have replayed := Machine.replay_commandActs ⟨h, .done⟩ patience command
  rw [← Machine.head_replay ⟨h, .done⟩, replayed]

theorem afterMove_failed_iff : h.afterMove.1 = .failed fault ↔ h.fuse = some fault := by
  unfold afterMove
  cases h.fuse <;> simp

theorem makes_commandActs (coherent : h.Coherent) (patience : Nat) (command : Command) :
    command.Makes (h.commandActs patience command) := by
  cases command with
  | move => exact .move
  | write => exact .write
  | writeThenMove => exact .writeThenMove
  | scan d targets =>
    obtain ⟨count, -, acts⟩ := Control.stops_of_drive coherent d targets (h.turns patience)
    rw [commandActs, acts]
    exact .scan count

/-- A command fails if its last act is a move and the fuse is blown by then. -/
theorem perform_failed_iff (coherent : h.Coherent) (patience : Nat) (command : Command) :
    (h.perform patience command).1 = .failed fault ↔
      (∃ d, (h.commandActs patience command).getLast? = some (.move d)) ∧
        (h.perform patience command).2.fuse = some fault := by
  cases command with
  | move | writeThenMove =>
    rw [perform, afterMove_failed_iff, afterMove_snd]
    simp [commandActs]
  | write s => simp [perform, commandActs]
  | scan d targets =>
    obtain ⟨count, stops, acts⟩ := Control.stops_of_drive coherent d targets (h.turns patience)
    have behind := h.replay_performed patience (.scan d targets)
    rw [commandActs, acts] at behind ⊢
    have last : (∃ d', (List.replicate count (Act.move d)).getLast? = some (.move d')) ↔
        count ≠ 0 := by
      cases count <;> simp [List.getLast?_replicate]
    rw [last, ← behind, ← walk, ← stops.failed_iff, perform_scan, ← scan]
    rcases (h.scan patience d targets).1 with found | fault' | _ <;> simp [scanned]

theorem carried_perform (coherent : before.Coherent) (patience : Nat) (command : Command) :
    before.Carried command (before.commandActs patience command)
      (before.perform patience command).1 (before.perform patience command).2 := by
  have behind := before.replay_performed patience command
  refine ⟨makes_commandActs coherent patience command, behind.symm, ?_, ?_, ?_, ?_, ?_⟩
  · rw [← behind]
    exact coherent_replay coherent _
  · rw [← behind]
    exact before.stepLimit_replay _
  · rw [← behind]
    exact before.steps_replay _
  · intro fault
    rw [perform_failed_iff coherent, fuse_eq_some_iff, ← behind, stepLimit_replay]
  · intro done a rest _
    rw [replay_append]
    exact (before.replay done).view_act a

theorem ofTape_of_ofText {text : String} {separator : Char} {stepLimit : Option Nat} {mode : Mode}
    (laid : ofText text separator stepLimit mode = .ok fresh) :
    ∃ tape, fresh = ofTape tape stepLimit mode := by
  unfold ofText at laid
  cases read : Tape.ofText text separator with
  | error fault =>
    rw [read] at laid
    cases laid
  | ok tape =>
    rw [read] at laid
    cases laid
    exact ⟨tape, rfl⟩

section Lists

/-- The head behind a list of commands. A failed command does not keep the next ones back. -/
def performAll (patience : Nat) (h : Head) (commands : List Command) : Head :=
  commands.foldl (fun h command => (h.perform patience command).2) h

def performActs (patience : Nat) : Head → List Command → List Act
  | _, [] => []
  | h, command :: commands =>
    h.commandActs patience command ++ performActs patience (h.perform patience command).2 commands

theorem replay_performActs (h : Head) (patience : Nat) (commands : List Command) :
    h.replay (h.performActs patience commands) = h.performAll patience commands := by
  induction commands generalizing h with
  | nil => rfl
  | cons command commands ih =>
    rw [performActs, replay_append, replay_performed, ih]
    rfl

theorem performAll_append (h : Head) (patience : Nat) (commands more : List Command) :
    h.performAll patience (commands ++ more) =
      (h.performAll patience commands).performAll patience more := List.foldl_append

end Lists

/-- Whatever a head is told, and whether or not it could do it, it knows the symbol it stands on, it
has counted every single move since it was laid out, and it has worked on an endless tape. -/
theorem performAll_carried {text : String} {separator : Char} {stepLimit : Option Nat} {mode : Mode}
    (laid : ofText text separator stepLimit mode = .ok fresh) (patience : Nat)
    (earlier : List Command) (command : Command) :
    let before := fresh.performAll patience earlier
    let after := fresh.performAll patience (earlier ++ [command])
    before.Carried command (before.commandActs patience command)
        (before.perform patience command).1 after ∧
      after.stepLimit = stepLimit ∧
      after.steps = (fresh.performActs patience (earlier ++ [command])).countP Act.isMove := by
  obtain ⟨tape, rfl⟩ := ofTape_of_ofText laid
  intro before after
  have start : (ofTape tape stepLimit mode).Coherent := rfl
  have coherent : before.Coherent := by
    have replayed : before = _ := (replay_performActs _ patience earlier).symm
    rw [replayed]
    exact coherent_replay start _
  have last : after = (before.perform patience command).2 := performAll_append ..
  have replayed : after = _ := (replay_performActs _ patience (earlier ++ [command])).symm
  refine ⟨?_, ?_, ?_⟩
  · rw [last]
    exact carried_perform coherent patience command
  · rw [replayed]
    exact stepLimit_replay _ _
  · rw [replayed]
    exact (steps_replay _ _).trans (Nat.zero_add _)

/-- The blank takes away the cell right of the head, and the fuse blows with the move onto it. -/
theorem performAll_carried_past_limit : ∃ fresh, ofText "1x" 'x' (some 1) .run = .ok fresh ∧
    let before := fresh.performAll 0 [.move .left]
    let after := fresh.performAll 0 [.move .left, .writeThenMove .blank .right]
    before.Carried (.writeThenMove .blank .right) [.write .blank, .move .right]
        (.failed (.stepLimitExceeded 1)) after ∧
      before.view 1 = .one ∧ after.view 0 = .blank ∧ after.steps = 2 := by
  have laid : ofText "1x" 'x' (some 1) .run =
      .ok (ofTape ⟨#[.one, .delimiter], 'x'⟩ (some 1) .run) := by rfl
  obtain ⟨carried, -, steps⟩ :=
    performAll_carried laid 0 [.move .left] (.writeThenMove .blank .right)
  exact ⟨_, laid, carried, by decide, by decide +kernel, steps⟩

end Head

end TuringMultiplier
