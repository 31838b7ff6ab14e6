import TuringMultiplier.Proofs.Operations
import TuringMultiplier.Proofs.Writes
import Mathlib.Data.Nat.Find
import Mathlib.Tactic.Ring

/-! Where a scan stops: on the nearest cell with one of its targets, or at the move that its fuse does
not allow. Both directions are alike, and the tape is as endless as the head sees it, so a blank is
always found. -/

set_option autoImplicit false

namespace TuringMultiplier

namespace Head

variable {h g : Head} {d : Direction} {targets : List Symbol} {count k : Nat}
  {answer : Outcome Symbol}

section Walks

/-- The head some moves further, whatever its fuse says about them. -/
def walk (h : Head) (d : Direction) (count : Nat) : Head :=
  h.replay (List.replicate count (.move d))

theorem walk_succ (h : Head) (d : Direction) (count : Nat) :
    h.walk d (count + 1) = (h.move d).walk d count := rfl

structure Walked (before : Head) (d : Direction) (count : Nat) (after : Head) : Prop where
  tape : after.tape = before.tape
  position : after.position = before.position + count * d.offset
  steps : after.steps = before.steps + count
  stepLimit : after.stepLimit = before.stepLimit
  coherent : after.Coherent

theorem tape_walk (h : Head) (d : Direction) (count : Nat) : (h.walk d count).tape = h.tape := by
  induction count generalizing h with
  | zero => rfl
  | succ count ih => exact ih (h.move d)

theorem position_walk (h : Head) (d : Direction) (count : Nat) :
    (h.walk d count).position = h.position + count * d.offset := by
  induction count generalizing h with
  | zero => simp [walk]
  | succ count ih =>
    rw [walk_succ, ih]
    change h.position + d.offset + count * d.offset = _
    push_cast
    ring

theorem steps_walk (h : Head) (d : Direction) (count : Nat) :
    (h.walk d count).steps = h.steps + count := by
  simp [walk, steps_replay, List.countP_replicate, Act.isMove]

theorem stepLimit_walk (h : Head) (d : Direction) (count : Nat) :
    (h.walk d count).stepLimit = h.stepLimit := stepLimit_replay h _

theorem walked_walk (coherent : h.Coherent) (d : Direction) (count : Nat) :
    h.Walked d count (h.walk d count) where
  tape := tape_walk h d count
  position := position_walk h d count
  steps := steps_walk h d count
  stepLimit := stepLimit_walk h d count
  coherent := coherent_replay coherent _

theorem view_zero (coherent : h.Coherent) : h.view 0 = h.symbol := by
  rw [coherent, view, Int.add_zero]

theorem view_move (h : Head) (d : Direction) (i : Int) :
    (h.move d).view i = h.view (i + d.offset) := by
  change h.tape.read (h.position + d.offset + i) = h.tape.read (h.position + (i + d.offset))
  congr 1
  omega

/-- The cell `i` places on, seen after a move, is the cell `i + 1` places on before it. -/
theorem view_move_offset (h : Head) (d : Direction) (i : Nat) :
    (h.move d).view (i * d.offset) = h.view ((i + 1 : Nat) * d.offset) := by
  rw [view_move]
  congr 1
  push_cast
  ring

end Walks

section Targets

def Nearest (h : Head) (d : Direction) (targets : List Symbol) (k : Nat) : Prop :=
  h.view (k * d.offset) ∈ targets ∧ ∀ i < k, h.view (i * d.offset) ∉ targets

theorem Nearest.unique {other : Nat} (nearest : h.Nearest d targets k)
    (nearest' : h.Nearest d targets other) : k = other := by
  rcases Nat.lt_trichotomy k other with less | same | less
  · exact absurd nearest.1 (nearest'.2 k less)
  · exact same
  · exact absurd nearest'.1 (nearest.2 other less)

theorem exists_nearest (there : h.view (k * d.offset) ∈ targets) :
    ∃ k, h.Nearest d targets k := by
  have found : ∃ k : Nat, h.view (k * d.offset) ∈ targets := ⟨k, there⟩
  exact ⟨Nat.find found, Nat.find_spec found, fun i less => Nat.find_min found less⟩

theorem exists_blank (h : Head) (d : Direction) : ∃ k : Nat, h.view (k * d.offset) = .blank := by
  cases d with
  | left =>
    refine ⟨(h.position + 1).toNat, Tape.read_of_neg ?_⟩
    dsimp only [Direction.offset]
    omega
  | right =>
    refine ⟨(h.tape.cells.size - h.position).toNat, Tape.read_of_size_le ?_⟩
    dsimp only [Direction.offset]
    omega

theorem missed_move (coherent : h.Coherent) (here : h.symbol ∉ targets)
    (missed : ∀ i < k, (h.move d).view (i * d.offset) ∉ targets) :
    ∀ i < k + 1, h.view (i * d.offset) ∉ targets := by
  intro i less
  cases i with
  | zero => simpa [view_zero coherent] using here
  | succ i =>
    rw [← view_move_offset]
    exact missed i (Nat.lt_of_succ_lt_succ less)

end Targets

section Fuses

/-- The fuse lets the head make so many moves. To stay where it is, it needs no leave. -/
def Allows (h : Head) (count : Nat) : Prop :=
  count = 0 ∨ ∀ limit ∈ h.stepLimit, h.steps + count ≤ limit

instance (h : Head) (count : Nat) : Decidable (h.Allows count) :=
  inferInstanceAs (Decidable (_ ∨ _))

theorem allows_succ (unblown : (h.move d).fuse = none) (allowed : (h.move d).Allows count) :
    h.Allows (count + 1) := by
  refine .inr fun limit member => ?_
  have first := fuse_eq_none_iff.mp unblown limit member
  rcases allowed with rfl | allowed
  · exact first
  · have := allowed limit member
    rw [steps_move] at this
    omega

theorem Allows.lt_turns {patience : Nat} (allowed : h.Allows k)
    (enough : h.stepLimit = none → k < patience) : k < h.turns patience := by
  unfold turns
  cases fused : h.stepLimit with
  | none => exact enough fused
  | some limit =>
    rcases allowed with rfl | allowed
    · exact Nat.succ_pos _
    · have := allowed limit fused
      dsimp only
      omega

end Fuses

inductive Stops (h : Head) (d : Direction) (targets : List Symbol) : Nat → Outcome Symbol → Prop
  where
  | found {k : Nat} (nearest : h.Nearest d targets k) (allowed : h.Allows k) :
      Stops h d targets k (.done (h.view (k * d.offset)))
  | blown {limit : Nat} (fused : h.stepLimit = some limit)
      (missed : ∀ i < limit - h.steps + 1, h.view (i * d.offset) ∉ targets) :
      Stops h d targets (limit - h.steps + 1) (.failed (.stepLimitExceeded limit))
  | unfinished {k : Nat} (missed : ∀ i < k, h.view (i * d.offset) ∉ targets)
      (allowed : h.Allows k) : Stops h d targets k .unfinished

theorem Stops.move (coherent : h.Coherent) (here : h.symbol ∉ targets)
    (unblown : (h.move d).fuse = none) (stops : (h.move d).Stops d targets count answer) :
    h.Stops d targets (count + 1) answer := by
  cases stops with
  | found nearest allowed =>
    obtain ⟨there, missed⟩ := nearest
    rw [view_move_offset] at there ⊢
    exact .found ⟨there, missed_move coherent here missed⟩ (allows_succ unblown allowed)
  | @blown limit fused missed =>
    have first := fuse_eq_none_iff.mp unblown limit fused
    have one_less : limit - (h.move d).steps + 1 = limit - h.steps := by
      rw [steps_move] at first ⊢
      omega
    rw [one_less] at missed ⊢
    exact .blown fused (missed_move coherent here missed)
  | unfinished missed allowed =>
    exact .unfinished (missed_move coherent here missed) (allows_succ unblown allowed)

theorem Stops.of_nearest (stops : h.Stops d targets count answer) (ended : answer ≠ .unfinished)
    (nearest : h.Nearest d targets k) (allowed : h.Allows k) :
    count = k ∧ answer = .done (h.view (k * d.offset)) := by
  cases stops with
  | found nearest' =>
    obtain rfl := nearest.unique nearest'
    exact ⟨rfl, rfl⟩
  | @blown limit fused missed =>
    have beyond : limit - h.steps < k := by
      by_contra near
      exact missed k (Nat.lt_succ_of_le (Nat.le_of_not_lt near)) nearest.1
    have := allowed.resolve_left (Nat.ne_zero_of_lt beyond) limit fused
    omega
  | unfinished => exact absurd rfl ended

theorem Stops.of_missing {limit : Nat} (stops : h.Stops d targets count answer)
    (ended : answer ≠ .unfinished) (fused : h.stepLimit = some limit)
    (missing : ∀ k, h.Nearest d targets k → ¬ h.Allows k) :
    count = limit - h.steps + 1 ∧ answer = .failed (.stepLimitExceeded limit) := by
  cases stops with
  | found nearest allowed => exact absurd allowed (missing _ nearest)
  | blown fused' =>
    obtain rfl := Option.some.inj (fused.symm.trans fused')
    exact ⟨rfl, rfl⟩
  | unfinished => exact absurd rfl ended

theorem Stops.failed_iff {fault : Fault} (stops : h.Stops d targets count answer) :
    answer = .failed fault ↔ count ≠ 0 ∧ (h.walk d count).fuse = some fault := by
  rw [fuse_eq_some_iff, stepLimit_walk, steps_walk]
  cases stops with
  | found _ allowed | unfinished _ allowed =>
    refine ⟨nofun, ?_⟩
    rintro ⟨moved, limit, member, passed, -⟩
    exact absurd (allowed.resolve_left moved limit member) (Nat.not_le.mpr passed)
  | @blown limit fused _ =>
    constructor
    · intro failed
      cases failed
      exact ⟨Nat.succ_ne_zero _, limit, fused, by omega, rfl⟩
    · rintro ⟨-, other, member, -, rfl⟩
      cases fused.symm.trans member
      rfl

end Head

namespace Control

variable {h : Head} {d : Direction} {targets : List Symbol} {turns k : Nat}

/-- A scan stops where it should, and it has only moved. -/
theorem stops_of_drive (coherent : h.Coherent) (d : Direction) (targets : List Symbol)
    (turns : Nat) : ∃ count, h.Stops d targets count ((scan d targets).drive turns () h).1 ∧
      (scan d targets).acts turns () h = List.replicate count (.move d) := by
  -- Turn by turn, as the drive goes; the cells ahead are those of the head one move on.
  induction turns generalizing h with
  | zero => exact ⟨0, .unfinished nofun (.inl rfl), rfl⟩
  | succ turns ih =>
    by_cases here : h.symbol ∈ targets
    · have turn : scan d targets () h.symbol = .finish [] h.symbol := if_pos here
      rw [drive_finish turn, acts_finish turn]
      have there : h.view ((0 : Nat) * d.offset) = h.symbol := by
        simpa using Head.view_zero coherent
      have stops : h.Stops d targets 0 (.done (h.view ((0 : Nat) * d.offset))) :=
        .found ⟨there ▸ here, nofun⟩ (.inl rfl)
      exact ⟨0, there ▸ stops, rfl⟩
    · have turn : scan d targets () h.symbol = .go [] d () := if_neg here
      cases fuse : (h.move d).fuse with
      | some fault =>
        obtain ⟨limit, fused, passed, rfl⟩ := Head.fuse_eq_some_iff.mp fuse
        rw [Head.steps_move] at passed
        have spent : limit - h.steps + 1 = 1 := by omega
        have missed : ∀ i < (1 : Nat), h.view (i * d.offset) ∉ targets :=
          Head.missed_move coherent here nofun
        rw [← spent] at missed
        have stops := Head.Stops.blown (h := h) fused missed
        rw [spent] at stops
        rw [drive_blown turn fuse, acts_blown turn fuse]
        exact ⟨1, stops, rfl⟩
      | none =>
        obtain ⟨count, stops, acts⟩ := ih (h.coherent_move d)
        rw [drive_go turn fuse, acts_go turn fuse]
        exact ⟨count + 1, stops.move coherent here fuse, congrArg (Act.move d :: ·) acts⟩

theorem drive_scan_ends (coherent : h.Coherent) (there : h.view (k * d.offset) ∈ targets)
    (enough : k < turns) : ((scan d targets).drive turns () h).1 ≠ .unfinished := by
  induction turns generalizing h k with
  | zero => exact absurd enough (Nat.not_lt_zero k)
  | succ turns ih =>
    by_cases here : h.symbol ∈ targets
    · have turn : scan d targets () h.symbol = .finish [] h.symbol := if_pos here
      rw [drive_finish turn]
      nofun
    · have turn : scan d targets () h.symbol = .go [] d () := if_neg here
      cases fuse : (h.move d).fuse with
      | some fault =>
        rw [drive_blown turn fuse]
        nofun
      | none =>
        rw [drive_go turn fuse]
        cases k with
        | zero => exact absurd (by simpa [Head.view_zero coherent] using there) here
        | succ k =>
          rw [← Head.view_move_offset] at there
          exact ih (h.coherent_move d) there (Nat.lt_of_succ_lt_succ enough)

end Control

namespace Head

variable {h : Head} {d : Direction} {targets : List Symbol} {patience : Nat}

theorem stops_of_scan (coherent : h.Coherent) (patience : Nat) (d : Direction)
    (targets : List Symbol) : ∃ count, h.Stops d targets count (h.scan patience d targets).1 ∧
      (h.scan patience d targets).2 = h.walk d count := by
  obtain ⟨count, stops, acts⟩ := Control.stops_of_drive coherent d targets (h.turns patience)
  refine ⟨count, stops, ?_⟩
  have replayed := congrArg Machine.head
    (Control.replay_acts (Control.scan d targets) (h.turns patience) () h .done)
  rw [Machine.head_replay, acts] at replayed
  exact replayed.symm

/-- A scan stops on the nearest target, without a move if that is under the head, and otherwise if
the fuse allows the moves to it. If it does not, the scan stops at the first move that is too many,
and without a fuse it goes on for ever. In all cases it has only moved. A blank is always somewhere. -/
theorem scan_stops (coherent : h.Coherent) (d : Direction) (targets : List Symbol) :
    (∀ k, h.Nearest d targets k → h.Allows k →
      ∀ patience, (h.stepLimit = none → k < patience) → ∃ after,
        h.scan patience d targets = (.done (h.view (k * d.offset)), after) ∧
          h.Walked d k after) ∧
    (∀ limit ∈ h.stepLimit, (∀ k, h.Nearest d targets k → ¬ h.Allows k) →
      ∀ patience, ∃ after,
        h.scan patience d targets = (.failed (.stepLimitExceeded limit), after) ∧
          h.Walked d (limit - h.steps + 1) after) ∧
    (h.stepLimit = none → (∀ k, ¬ h.Nearest d targets k) →
      ∀ patience, (h.scan patience d targets).1 = .unfinished) ∧
    (.blank ∈ targets → ∃ k, h.Nearest d targets k) := by
  refine ⟨?_, ?_, ?_, ?_⟩
  · intro k nearest allowed patience enough
    obtain ⟨count, stops, there⟩ := stops_of_scan coherent patience d targets
    have ended := Control.drive_scan_ends coherent nearest.1 (allowed.lt_turns enough)
    obtain ⟨rfl, answer⟩ := stops.of_nearest ended nearest allowed
    exact ⟨_, Prod.ext answer there, walked_walk coherent d count⟩
  · intro limit fused missing patience
    obtain ⟨count, stops, there⟩ := stops_of_scan coherent patience d targets
    have ended : (h.scan patience d targets).1 ≠ .unfinished :=
      Control.drive_ne_unfinished fused (by simp [turns, Option.mem_def.mp fused])
    obtain ⟨rfl, answer⟩ := stops.of_missing ended fused missing
    exact ⟨_, Prod.ext answer there, walked_walk coherent d _⟩
  · intro unfused missing patience
    obtain ⟨count, stops, -⟩ := stops_of_scan coherent patience d targets
    generalize (h.scan patience d targets).1 = answer at stops ⊢
    cases stops with
    | found nearest => exact absurd nearest (missing count)
    | blown fused => cases unfused.symm.trans fused
    | unfinished => rfl
  · intro blank
    obtain ⟨k, there⟩ := h.exists_blank d
    exact exists_nearest (there ▸ blank)

theorem scan_stops_at_limit : ∃ h : Head, h.Coherent ∧ h.stepLimit = some 2 ∧
    (∃ after, h.scan 0 .right [.delimiter] = (.done .delimiter, after) ∧
      h.Walked .right 2 after) ∧
    (∃ after, h.scan 0 .left [.blank] = (.done .blank, after) ∧ h.Walked .left 1 after) ∧
    ∃ after, h.scan 0 .right [.endMark] = (.failed (.stepLimitExceeded 2), after) ∧
      h.Walked .right 3 after := by
  let h := ofTape ⟨#[.one, .zero, .delimiter, .one, .endMark], 'x'⟩ (some 2) .run
  have coherent : h.Coherent := rfl
  have fused : h.stepLimit = some 2 := rfl
  have far : h.Nearest .right [.endMark] 4 := ⟨by decide, by decide⟩
  refine ⟨h, coherent, fused, ?_, ?_, ?_⟩
  · exact (scan_stops coherent .right [.delimiter]).1 2 ⟨by decide, by decide⟩ (by decide) 0 nofun
  · exact (scan_stops coherent .left [.blank]).1 1 ⟨by decide, by decide⟩ (by decide) 0 nofun
  · refine (scan_stops coherent .right [.endMark]).2.1 2 fused ?_ 0
    intro k nearest
    obtain rfl := far.unique nearest
    decide

end Head

end TuringMultiplier
