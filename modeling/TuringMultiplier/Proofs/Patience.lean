import TuringMultiplier.CommandLine.Reply
import TuringMultiplier.Proofs.Advance
import TuringMultiplier.Proofs.Draws

/-! More patience gives the same answer. Whatever has ended ends the same way when it is given more
turns: an advance, a calculation, a draw, a batch, and so the reply to a request. A run without a
limit can therefore be tried with more and more patience, and its first reply is the only one. -/

set_option autoImplicit false

namespace TuringMultiplier

variable {patience more : Nat}

/-- In the end there is this value: patience enough brings it, and none brings another. -/
structure InTheEnd {α : Type} (brings : Nat → α → Prop) (a : α) : Prop where
  comes : ∃ enough, ∀ patience ≥ enough, brings patience a
  only : ∀ patience other, brings patience other → other = a

theorem InTheEnd.of_brings {α : Type} {brings : Nat → α → Prop} {a : α} (brought : brings patience a)
    (stays : ∀ {patience more a}, brings patience a → patience ≤ more → brings more a)
    (unique : ∀ {patience a b}, brings patience a → brings patience b → a = b) :
    InTheEnd brings a := by
  refine ⟨⟨patience, fun more le => stays brought le⟩, ?_⟩
  intro patience' other brought'
  have left := stays brought (Nat.le_max_left patience patience')
  have right := stays brought' (Nat.le_max_right patience patience')
  exact unique right left

theorem InTheEnd.unique {α : Type} {brings : Nat → α → Prop} {a b : α} (left : InTheEnd brings a)
    (right : InTheEnd brings b) : a = b := by
  obtain ⟨enough, comes⟩ := left.comes
  exact right.only enough a (comes enough (Nat.le_refl _))

theorem Head.turns_le (h : Head) (le : patience ≤ more) : h.turns patience ≤ h.turns more := by
  unfold turns
  cases h.stepLimit with
  | none => exact le
  | some limit => exact Nat.le_refl _

namespace Machine

variable {m : Machine} {count others : Nat}

theorem advance_of_le (ended : (m.advance patience).1 ≠ .unfinished) (le : patience ≤ more) :
    m.advance more = m.advance patience := by
  rw [outcome_advance] at ended
  have driven : m.driven more = m.driven patience :=
    Control.drive_of_le ended (m.head.turns_le le)
  rcases ends : m.driven patience with ⟨q | fault | _, last⟩
  · rw [advance_of_done ends, advance_of_done (driven.trans ends)]
  · rw [advance_of_failed ends, advance_of_failed (driven.trans ends)]
  · rw [ends] at ended
    exact absurd rfl ended

theorem advanceUntilDone_of_le (ended : (m.advanceUntilDone patience count).1 ≠ .unfinished)
    (le : patience ≤ more) (le' : count ≤ others) :
    m.advanceUntilDone more others = m.advanceUntilDone patience count := by
  induction count generalizing m others with
  | zero => exact absurd rfl ended
  | succ count ih =>
    obtain ⟨others, rfl⟩ : ∃ n, others = n + 1 := ⟨others - 1, by omega⟩
    by_cases finished : m.phase = .done
    · rw [advanceUntilDone_of_done finished, advanceUntilDone_of_done finished]
    · have same := @advance_of_le patience more m
      rcases advanced : m.advance patience with ⟨q | fault | _, after⟩ <;> rw [advanced] at same
      · have again := same nofun le
        rw [advanceUntilDone_of_advance finished advanced] at ended ⊢
        rw [advanceUntilDone_of_advance finished again]
        exact ih ended (Nat.le_of_succ_le_succ le')
      · have again := same nofun le
        rw [advanceUntilDone_of_failed finished advanced, advanceUntilDone_of_failed finished again]
      · rw [advanceUntilDone_of_unfinished finished advanced] at ended
        exact absurd rfl ended

theorem calculate_of_le (ended : (m.calculate patience).1 ≠ .unfinished) (le : patience ≤ more) :
    m.calculate more = m.calculate patience := by
  have turns := m.head.turns_le le
  apply advanceUntilDone_of_le ended le
  unfold advances
  omega

end Machine

namespace Random

variable {α β : Type} {width bound maxBits rounds : Nat} {word : Draw Nat}

def Within (first second : Draw α) : Prop :=
  ∀ g drawn, first g = some drawn → second g = some drawn

theorem Within.refl (draw : Draw α) : Within draw draw := fun _ _ => id

theorem Within.bind {first second : Draw α} {next after : α → Draw β} (now : Within first second)
    (later : ∀ a, Within (next a) (after a)) : Within (first >>= next) (second >>= after) := by
  intro g ⟨b, last⟩ drawn
  obtain ⟨a, between, left, right⟩ := bind_eq_some_iff.mp drawn
  exact bind_eq_some_iff.mpr ⟨a, between, now g _ left, later a between _ right⟩

theorem Within.mapM {first second : Draw α} (each : Within first second) (rounds : Nat) :
    Within ((List.replicate rounds ()).mapM fun _ => first)
      ((List.replicate rounds ()).mapM fun _ => second) := by
  induction rounds with
  | zero => exact .refl _
  | succ rounds ih =>
    rw [List.replicate_succ, List.mapM_cons, List.mapM_cons]
    exact each.bind fun a => ih.bind fun row => .refl _

theorem below_within (le : patience ≤ more) :
    Within (below width word bound patience) (below width word bound more) := by
  induction patience generalizing more with
  | zero => nofun
  | succ patience ih =>
    obtain ⟨more, rfl⟩ : ∃ n, more = n + 1 := ⟨more - 1, by omega⟩
    rw [below, below]
    apply (Within.refl word).bind
    intro drawn
    dsimp only
    split
    · exact .refl _
    · exact ih (Nat.le_of_succ_le_succ le)

theorem factor_within (le : patience ≤ more) :
    Within (factor patience maxBits) (factor more maxBits) := by
  rw [factor, factor]
  apply (below_within le).bind
  intro width
  dsimp only
  split
  · exact .refl _
  · exact below_within le

theorem factorPair_within (le : patience ≤ more) :
    Within (factorPair patience maxBits) (factorPair more maxBits) := by
  rw [factorPair, factorPair]
  exact (factor_within le).bind fun first => (factor_within le).bind fun second => .refl _

theorem pairs_of_le {seed : UInt64} {drawn : List (Nat × Nat)}
    (found : pairs patience rounds maxBits seed = some drawn) (le : patience ≤ more) :
    pairs more rounds maxBits seed = some drawn := by
  obtain ⟨row, row_drawn, rfl⟩ := Option.map_eq_some_iff.mp found
  exact Option.map_eq_some_iff.mpr ⟨row, (factorPair_within le).mapM rounds _ _ row_drawn, rfl⟩

/-- So many rounds draw these pairs from the seed, however many words are rejected on the way. -/
def Gives (seed : UInt64) (maxBits rounds : Nat) : List (Nat × Nat) → Prop :=
  InTheEnd fun patience drawn => pairs patience rounds maxBits seed = some drawn

theorem gives_of_pairs {seed : UInt64} {drawn : List (Nat × Nat)}
    (found : pairs patience rounds maxBits seed = some drawn) : Gives seed maxBits rounds drawn :=
  .of_brings found pairs_of_le fun left right => Option.some.inj (left.symm.trans right)

end Random

section Batches

variable {first second : Nat}

theorem Round.run_of_le {config : Machine.Config} {round : Round}
    (ran : run patience first second config = some round) (le : patience ≤ more) :
    run more first second config = some round := by
  unfold run at ran ⊢
  split
  · next fault refused =>
    rwa [refused] at ran
  · next m built =>
    rw [built] at ran
    have same := @Machine.calculate_of_le patience more m
    rcases calculated : m.calculate patience with ⟨_ | fault | _, after⟩ <;>
      simp only [calculated] at ran same
    · have again := same nofun le
      rw [again]
      exact ran
    · have again := same nofun le
      rw [again]
      exact ran
    · cases ran

theorem mapM_of_within {α β : Type} {f g : α → Option β} {row : List α} {results : List β}
    (each : ∀ {a b}, f a = some b → g a = some b) (found : row.mapM f = some results) :
    row.mapM g = some results := by
  induction row generalizing results with
  | nil => exact found
  | cons a row ih =>
    rw [List.mapM_cons] at found ⊢
    obtain ⟨b, now, found⟩ := Option.bind_eq_some_iff.mp found
    obtain ⟨rest, later, found⟩ := Option.bind_eq_some_iff.mp found
    refine Option.bind_eq_some_iff.mpr ⟨b, each now, ?_⟩
    exact Option.bind_eq_some_iff.mpr ⟨rest, ih later, found⟩

theorem Batch.run_of_le {config : Config} {seed : UInt64}
    (ended : (run patience config seed).1 ≠ .unfinished) (le : patience ≤ more) :
    run more config seed = run patience config seed := by
  unfold run at ended ⊢
  split
  · rfl
  · next free =>
    rw [if_neg free] at ended
    dsimp only at ended ⊢
    split at ended
    · next rounds found =>
      obtain ⟨pairs, drawn, ran⟩ := Option.bind_eq_some_iff.mp found
      have again := mapM_of_within (fun ran => Round.run_of_le ran le) ran
      have same := Option.bind_eq_some_iff.mpr ⟨pairs, Random.pairs_of_le drawn le, again⟩
      rw [Option.bind_eq_bind, same]
    · exact absurd rfl ended

def Batch.Reports (config : Config) (seed : UInt64) : Report → Prop :=
  InTheEnd fun patience report => (run patience config seed).1 = .done report

theorem Batch.reports_of_run {config : Config} {seed : UInt64} {report : Report}
    (ran : (run patience config seed).1 = .done report) : Reports config seed report := by
  refine .of_brings ran ?_ fun left right => Outcome.done.inj (left.symm.trans right)
  intro patience more report ran le
  rw [run_of_le (ran ▸ nofun) le, ran]

end Batches

namespace CommandLine

variable {log : Log}

theorem Reply.ofProduct_of_le {check : String → Char → Bool} {input : String}
    {config : Machine.Config} {trace : Bool} {reply : Reply}
    (replied : ofProduct check log patience input config trace = some reply)
    (le : patience ≤ more) : ofProduct check log more input config trace = some reply := by
  unfold ofProduct at replied ⊢
  split
  · next refused => rwa [if_pos refused] at replied
  · next accepted =>
    rw [if_neg accepted] at replied
    split
    · next fault refused => rwa [refused] at replied
    · next m built =>
      rw [built] at replied
      have same := @Machine.calculate_of_le patience more m
      rcases calculated : m.calculate patience with ⟨_ | fault | _, after⟩ <;>
        simp only [calculated] at replied same
      · have again := same nofun le
        rw [again]
        exact replied
      · have again := same nofun le
        rw [again]
        exact replied
      · cases replied

theorem Reply.ofBatch_of_le {answer : List String → Batch.Report → Reply} {config : Batch.Config}
    {seed : UInt64} {reply : Reply}
    (replied : ofBatch log answer (Batch.run patience config seed) = some reply)
    (le : patience ≤ more) : ofBatch log answer (Batch.run more config seed) = some reply := by
  have ended : (Batch.run patience config seed).1 ≠ .unfinished := by
    intro unfinished
    rcases ran : Batch.run patience config seed with ⟨outcome, events⟩
    rw [ran] at unfinished replied
    cases unfinished
    cases replied
  rwa [Batch.run_of_le ended le]

namespace Request

variable {asked : Request} {reply : Reply}

theorem reply_of_le (replied : asked.reply log patience = some reply) (le : patience ≤ more) :
    asked.reply log more = some reply := by
  cases asked with
  | product => exact Reply.ofProduct_of_le replied le
  | check | benchmark => exact Reply.ofBatch_of_le replied le

structure Settles (log : Log) (asked : Request) (reply : Reply) : Prop where
  comes : ∃ enough, ∀ patience ≥ enough, asked.reply log patience = some reply
  only : ∀ patience other, asked.reply log patience = some other → other = reply

theorem settles_of_reply (replied : asked.reply log patience = some reply) :
    asked.Settles log reply := by
  have ended : InTheEnd (fun patience reply => asked.reply log patience = some reply) reply :=
    .of_brings replied reply_of_le fun left right => Option.some.inj (left.symm.trans right)
  exact ⟨ended.comes, ended.only⟩

end Request

end CommandLine

end TuringMultiplier
