import TuringMultiplier.Proofs.Acts
import TuringMultiplier.Proofs.Termination

/-! What can be asked of a machine, one request after the other: a command to its head or a call for
one advance or for all of them. A failed request is answered like any other, and the next one goes on
from where it stopped. Whatever is asked, what is done is a list of acts. -/

set_option autoImplicit false

namespace TuringMultiplier

namespace Head

def commandActs (patience : Nat) (h : Head) : Command → List Act
  | .move direction => [.move direction]
  | .write s => [.write s]
  | .writeThenMove s direction => [.write s, .move direction]
  | .scan direction targets => (Control.scan direction targets).acts (h.turns patience) () h

theorem afterMove_snd (h : Head) : h.afterMove.2 = h := by
  unfold afterMove
  split <;> rfl

def scanned : Outcome Symbol → Outcome (Option Symbol)
  | .done found => .done (some found)
  | .failed fault => .failed fault
  | .unfinished => .unfinished

theorem perform_scan (h : Head) (patience : Nat) (direction : Direction) (targets : List Symbol) :
    h.perform patience (.scan direction targets) =
      (scanned (h.scan patience direction targets).1, (h.scan patience direction targets).2) := by
  rw [perform.eq_def]
  dsimp only
  rcases h.scan patience direction targets with ⟨found | fault | _, after⟩ <;> rfl

end Head

namespace Machine

variable {m : Machine} {patience : Nat}

inductive Operation where
  | command (command : Head.Command)
  | call (call : Call)
  deriving DecidableEq, Repr

inductive Answer where
  | performed (answer : Outcome (Option Symbol))
  | advanced (answer : Outcome Phase)
  | calculated (answer : Outcome Unit)
  deriving DecidableEq, Repr

def operate (patience : Nat) (m : Machine) : Operation → Answer × Machine
  | .command command =>
    let (answer, head) := m.head.perform patience command
    (.performed answer, ⟨head, m.phase⟩)
  | .call .advance => let (answer, m) := m.advance patience; (.advanced answer, m)
  | .call .calculate => let (answer, m) := m.calculate patience; (.calculated answer, m)

def follow (patience : Nat) (m : Machine) (operations : List Operation) : Machine :=
  operations.foldl (fun m operation => (m.operate patience operation).2) m

def operationActs (patience : Nat) (m : Machine) : Operation → List Act
  | .command command => m.head.commandActs patience command
  | .call .advance => m.advanceActs patience
  | .call .calculate => m.acts patience

def followActs (patience : Nat) : Machine → List Operation → List Act
  | _, [] => []
  | m, operation :: operations =>
    m.operationActs patience operation ++
      followActs patience (m.operate patience operation).2 operations

theorem replay_commandActs (m : Machine) (patience : Nat) (command : Head.Command) :
    m.replay (m.head.commandActs patience command) =
      ⟨(m.head.perform patience command).2, m.phase⟩ := by
  cases command with
  | write s => rfl
  | move direction =>
    rw [Head.perform, Head.afterMove_snd]
    rfl
  | writeThenMove s direction =>
    rw [Head.perform, Head.afterMove_snd]
    rfl
  | scan direction targets =>
    rw [Head.perform_scan]
    exact Control.replay_acts _ _ () m.head m.phase

theorem replay_operationActs (m : Machine) (patience : Nat) (operation : Operation) :
    m.replay (m.operationActs patience operation) = (m.operate patience operation).2 := by
  rcases operation with command | _ | _
  · exact m.replay_commandActs patience command
  · exact m.replay_advanceActs patience
  · exact m.replay_acts patience

theorem replay_followActs (m : Machine) (patience : Nat) (operations : List Operation) :
    m.replay (m.followActs patience operations) = m.follow patience operations := by
  induction operations generalizing m with
  | nil => rfl
  | cons operation operations ih =>
    rw [followActs, replay_append, replay_operationActs, ih]
    rfl

end Machine

end TuringMultiplier
