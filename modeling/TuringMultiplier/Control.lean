import TuringMultiplier.Head

/-! A finite control that drives a head. On every turn it looks at its state and at the symbol under
the head, writes or leaves that symbol, and then moves one cell or stops. Since no turn but the last
goes without a move, turns are counted by moves. A symbol that is replaced before the head moves on
counts as written all the same, so a turn lists what it writes. -/

set_option autoImplicit false

namespace TuringMultiplier

inductive Action (σ ρ : Type) where
  | finish (writes : List Symbol) (result : ρ)
  | refuse (fault : Fault)
  | go (writes : List Symbol) (direction : Direction) (next : σ)
  deriving DecidableEq, Repr

abbrev Control (σ ρ : Type) := σ → Symbol → Action σ ρ

namespace Control

variable {σ ρ : Type}

/-- Lets a control run for at most `turns` turns. However it ends, the head is part of the
answer, as the last turn left it. -/
@[specialize]
def drive (control : Control σ ρ) : Nat → σ → Head → Outcome ρ × Head
  | 0, _, h => (.unfinished, h)
  | turns + 1, state, h =>
    match control state h.symbol with
    | .finish writes result => (.done result, h.mark writes)
    | .refuse fault => (.failed fault, h)
    | .go writes direction next =>
      let h := (h.mark writes).move direction
      match h.fuse with
      | some fault => (.failed fault, h)
      | none => drive control turns next h

theorem drive_of_le {control : Control σ ρ} {turns more : Nat} {state : σ} {h : Head}
    (ended : (control.drive turns state h).1 ≠ .unfinished) (le : turns ≤ more) :
    control.drive more state h = control.drive turns state h := by
  induction turns generalizing more state h with
  | zero => exact absurd rfl ended
  | succ turns ih =>
    obtain ⟨more, rfl⟩ : ∃ n, more = n + 1 := ⟨more - 1, by omega⟩
    rw [drive] at ended ⊢
    rw [drive]
    split
    · rfl
    · rfl
    · next writes direction next _ =>
      simp only [*] at ended
      dsimp only
      split
      · rfl
      · next unblown =>
        simp only [unblown] at ended
        exact ih ended (by omega)

/-- With a fuse, a run ends within the moves that are left and one more, whatever the control. -/
theorem drive_ne_unfinished {control : Control σ ρ} {limit turns : Nat} {state : σ} {h : Head}
    (fused : h.stepLimit = some limit) (enough : limit - h.steps + 1 ≤ turns) :
    (control.drive turns state h).1 ≠ .unfinished := by
  induction turns generalizing state h with
  | zero => omega
  | succ turns ih =>
    rw [drive]
    split
    · simp
    · simp
    · next writes direction next _ =>
      dsimp only
      split
      · simp
      · next unblown =>
        have left : h.steps + 1 ≤ limit := by
          simpa [Head.fuse, fused] using unblown
        exact ih (by simpa using fused) (by simp; omega)

def scan (direction : Direction) (targets : List Symbol) : Control Unit Symbol := fun _ s =>
  if s ∈ targets then .finish [] s else .go [] direction ()

end Control

namespace Head

/-- Walks until the head sees one of `targets`. A head that starts on one does not move. -/
def scan (h : Head) (patience : Nat) (direction : Direction) (targets : List Symbol) :
    Outcome Symbol × Head :=
  (Control.scan direction targets).drive (h.turns patience) () h

inductive Command where
  | move (direction : Direction)
  | write (s : Symbol)
  | writeThenMove (s : Symbol) (direction : Direction)
  | scan (direction : Direction) (targets : List Symbol)
  deriving DecidableEq, Repr

def afterMove (h : Head) : Outcome (Option Symbol) × Head :=
  match h.fuse with
  | some fault => (.failed fault, h)
  | none => (.done none, h)

/-- Carries out one command. A failed command has made its write and its last move all the same. -/
def perform (patience : Nat) (h : Head) : Command → Outcome (Option Symbol) × Head
  | .move direction => (h.move direction).afterMove
  | .write s => (.done none, h.write s)
  | .writeThenMove s direction => ((h.write s).move direction).afterMove
  | .scan direction targets =>
    match h.scan patience direction targets with
    | (.done found, h) => (.done (some found), h)
    | (.failed fault, h) => (.failed fault, h)
    | (.unfinished, h) => (.unfinished, h)

end Head

end TuringMultiplier
