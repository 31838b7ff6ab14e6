import TuringMultiplier.Proofs.Path

/-! Driving a head along a path. With enough moves left on the fuse the head gets to the end of the
path, and otherwise it stops at the move that is one too many. There is no third way, so a fault
other than the fuse needs a path that leads to it. -/

set_option autoImplicit false

namespace TuringMultiplier

namespace Tape

theorem separator_write (t : Tape) (position : Int) (s : Symbol) :
    (t.write position s).1.separator = t.separator :=
  (t.writes_write position s).separator_eq

end Tape

namespace Head

theorem separator_mark (h : Head) (w : List Symbol) :
    (h.mark w).tape.separator = h.tape.separator := by
  induction w generalizing h with
  | nil => rfl
  | cons s w ih => exact (ih (h.write s)).trans (h.tape.separator_write h.position s)

theorem fuse_eq_none_iff {h : Head} : h.fuse = none ↔ ∀ limit ∈ h.stepLimit, h.steps ≤ limit := by
  unfold fuse
  cases h.stepLimit <;> simp

theorem fuse_eq_some_iff {h : Head} {fault : Fault} :
    h.fuse = some fault ↔
      ∃ limit ∈ h.stepLimit, limit < h.steps ∧ fault = .stepLimitExceeded limit := by
  unfold fuse
  cases h.stepLimit <;> simp [eq_comm]

structure Reaches (before : Head) (count : Nat) (b : Span) (after : Head) : Prop where
  shown : after.Shows b
  steps : after.steps = before.steps + count
  stepLimit : after.stepLimit = before.stepLimit
  separator : after.tape.separator = before.tape.separator

theorem Reaches.refl {h : Head} {a : Span} (shown : h.Shows a) : h.Reaches 0 a h :=
  ⟨shown, rfl, rfl, rfl⟩

theorem Reaches.trans {m n : Nat} {a b : Span} {first second third : Head}
    (left : first.Reaches m a second) (right : second.Reaches n b third) :
    first.Reaches (m + n) b third where
  shown := right.shown
  steps := by rw [right.steps, left.steps, Nat.add_assoc]
  stepLimit := right.stepLimit.trans left.stepLimit
  separator := right.separator.trans left.separator

theorem Shows.reaches_mark {h : Head} {a b : Span} {w : List Symbol} (shown : h.Shows a)
    (marks : Span.Marks w a b) : h.Reaches 0 b (h.mark w) :=
  ⟨shown.mark marks, steps_mark h w, stepLimit_mark h w, separator_mark h w⟩

theorem Shows.reaches_move {h : Head} {a b : Span} {d : Direction} (shown : h.Shows a)
    (moves : Span.Moves d a b) : h.Reaches 1 b (h.move d) :=
  ⟨shown.move moves, rfl, rfl, rfl⟩

def Affords (h : Head) (patience count : Nat) : Prop :=
  match h.stepLimit with
  | some limit => h.steps + count ≤ limit
  | none => count < patience

theorem Affords.of_le {h : Head} {patience few many : Nat} (affords : h.Affords patience many)
    (le : few ≤ many) : h.Affords patience few := by
  unfold Affords at *
  revert affords
  cases h.stepLimit <;> dsimp only <;> omega

theorem Affords.limit {h : Head} {patience count : Nat} (affords : h.Affords patience count) :
    ∀ limit ∈ h.stepLimit, h.steps + count ≤ limit := by
  intro limit member
  rw [Option.mem_def] at member
  simpa [Affords, member] using affords

theorem Affords.turns {h : Head} {patience count : Nat} (affords : h.Affords patience count) :
    count < h.turns patience := by
  unfold Affords at affords
  unfold Head.turns
  revert affords
  cases h.stepLimit <;> dsimp only <;> omega

theorem Reaches.affords {m n patience : Nat} {b : Span} {before after : Head}
    (reaches : before.Reaches m b after) (affords : before.Affords patience (m + n)) :
    after.Affords patience n := by
  unfold Affords at *
  rw [reaches.stepLimit, reaches.steps]
  revert affords
  cases before.stepLimit <;> dsimp only <;> omega

end Head

namespace Control

variable {σ ρ : Type} {control : Control σ ρ} {q r : σ} {a b : Span} {h : Head}

section Turns

variable {turns : Nat} {w : List Symbol} {d : Direction} {result : ρ} {fault : Fault}

theorem drive_finish (turn : control q h.symbol = .finish w result) :
    control.drive (turns + 1) q h = (.done result, h.mark w) := by
  rw [drive, turn]

theorem drive_refuse (turn : control q h.symbol = .refuse fault) :
    control.drive (turns + 1) q h = (.failed fault, h) := by
  rw [drive, turn]

theorem drive_blown (turn : control q h.symbol = .go w d r)
    (blown : ((h.mark w).move d).fuse = some fault) :
    control.drive (turns + 1) q h = (.failed fault, (h.mark w).move d) := by
  rw [drive, turn]
  dsimp only
  rw [blown]

theorem drive_go (turn : control q h.symbol = .go w d r)
    (unblown : ((h.mark w).move d).fuse = none) :
    control.drive (turns + 1) q h = control.drive turns r ((h.mark w).move d) := by
  rw [drive, turn]
  dsimp only
  rw [unblown]

end Turns

theorem stepLimit_drive (control : Control σ ρ) (turns : Nat) (q : σ) (h : Head) :
    (control.drive turns q h).2.stepLimit = h.stepLimit := by
  induction turns generalizing q h with
  | zero => rfl
  | succ turns ih =>
    rw [drive]
    split
    · exact h.stepLimit_mark _
    · rfl
    · dsimp only
      split
      · exact h.stepLimit_mark _
      · rw [ih]
        exact h.stepLimit_mark _

theorem steps_le_drive (control : Control σ ρ) (turns : Nat) (q : σ) (h : Head) :
    h.steps ≤ (control.drive turns q h).2.steps := by
  induction turns generalizing q h with
  | zero => exact Nat.le_refl _
  | succ turns ih =>
    rw [drive]
    split
    · exact Nat.le_of_eq (h.steps_mark _).symm
    · exact Nat.le_refl _
    · next w d next _ =>
      have moved : h.steps ≤ ((h.mark w).move d).steps := by simp
      dsimp only
      split
      · exact moved
      · exact Nat.le_trans moved (ih next _)

theorem steps_lt_drive {w : List Symbol} {d : Direction} (turn : control q h.symbol = .go w d r)
    (turns : Nat) : h.steps < (control.drive (turns + 1) q h).2.steps := by
  have moved : ((h.mark w).move d).steps = h.steps + 1 := by simp
  cases fuse : ((h.mark w).move d).fuse with
  | some fault =>
    rw [drive_blown turn fuse, moved]
    exact Nat.lt_succ_self _
  | none =>
    have grown := steps_le_drive control turns r ((h.mark w).move d)
    rw [drive_go turn fuse]
    exact Nat.lt_of_lt_of_le (moved ▸ Nat.lt_succ_self _) grown

/-- The fuse lets one move beyond the limit be made, and that move is the last. -/
theorem drive_spent {limit : Nat} (fused : h.stepLimit = some limit) (turns : Nat) (q : σ) :
    (control.drive turns q h).2.steps ≤ max limit h.steps ∨
      (control.drive turns q h).1 = .failed (.stepLimitExceeded limit) ∧
        (control.drive turns q h).2.steps = max limit h.steps + 1 := by
  induction turns generalizing q h with
  | zero => exact .inl (Nat.le_max_right ..)
  | succ turns ih =>
    rw [drive]
    split
    · left
      rw [Head.steps_mark]
      exact Nat.le_max_right ..
    · exact .inl (Nat.le_max_right ..)
    · next w d next _ =>
      have kept : ((h.mark w).move d).stepLimit = some limit := by simpa using fused
      have moved : ((h.mark w).move d).steps = h.steps + 1 := by simp
      dsimp only
      split
      · next fault blown =>
        obtain ⟨other, same, passed, rfl⟩ := Head.fuse_eq_some_iff.mp blown
        obtain rfl : limit = other := Option.some.inj (kept.symm.trans same)
        right
        constructor
        · rfl
        · dsimp only
          omega
      · next unblown =>
        have within := Head.fuse_eq_none_iff.mp unblown limit kept
        have rest := ih kept next
        rw [moved] at within rest
        rwa [show max limit (h.steps + 1) = max limit h.steps by omega] at rest

/-- A fault is a refusal of the control, with what every turn keeps still in place, or it is the fuse's
and came after a move too many. -/
theorem drive_failed_of_kept {I : σ → Head → Prop} {turns : Nat} {fault : Fault}
    (kept : ∀ {q h w d r}, I q h → control q h.symbol = .go w d r → I r ((h.mark w).move d))
    (start : I q h) (failed : (control.drive turns q h).1 = .failed fault) :
    (∃ r g, I r g ∧ control r g.symbol = .refuse fault) ∨ ∃ limit ∈ h.stepLimit,
      fault = .stepLimitExceeded limit ∧ limit < (control.drive turns q h).2.steps := by
  induction turns generalizing q h with
  | zero => cases failed
  | succ turns ih =>
    cases turn : control q h.symbol with
    | finish w result =>
      rw [drive_finish turn] at failed
      cases failed
    | refuse other =>
      rw [drive_refuse turn] at failed
      cases failed
      exact .inl ⟨q, h, start, turn⟩
    | go w d next =>
      cases fuse : ((h.mark w).move d).fuse with
      | some other =>
        rw [drive_blown turn fuse] at failed ⊢
        cases failed
        obtain ⟨limit, member, passed, rfl⟩ := Head.fuse_eq_some_iff.mp fuse
        rw [Head.stepLimit_move, Head.stepLimit_mark] at member
        exact .inr ⟨limit, member, rfl, passed⟩
      | none =>
        rw [drive_go turn fuse] at failed ⊢
        have rest := ih (kept start turn) failed
        rwa [Head.stepLimit_move, Head.stepLimit_mark] at rest

theorem drive_failed {turns : Nat} {fault : Fault}
    (failed : (control.drive turns q h).1 = .failed fault) :
    (∃ r s, control r s = .refuse fault) ∨ ∃ limit ∈ h.stepLimit, fault = .stepLimitExceeded limit ∧
      limit < (control.drive turns q h).2.steps := by
  rcases drive_failed_of_kept (I := fun _ _ => True) (fun _ _ => trivial) trivial failed with
    ⟨r, g, -, refused⟩ | blown
  · exact .inl ⟨r, g.symbol, refused⟩
  · exact .inr blown

theorem drive_still {turns : Nat} (ended : (control.drive turns q h).1 ≠ .unfinished)
    (still : (control.drive turns q h).2.steps = h.steps) :
    (∃ w result, control q h.symbol = .finish w result ∧
        (control.drive turns q h).1 = .done result) ∨
      ∃ fault, control q h.symbol = .refuse fault ∧
        (control.drive turns q h).1 = .failed fault := by
  cases turns with
  | zero => exact absurd rfl ended
  | succ turns =>
    cases turn : control q h.symbol with
    | finish w result =>
      rw [drive_finish turn]
      exact .inl ⟨w, result, rfl, rfl⟩
    | refuse fault =>
      rw [drive_refuse turn]
      exact .inr ⟨fault, rfl, rfl⟩
    | go w d next =>
      have grown := steps_lt_drive turn turns
      omega

theorem Path.split {m n : Nat} (path : control.Path (m + n) q a r b) :
    ∃ middle c, control.Path m q a middle c ∧ control.Path n middle c r b := by
  induction m generalizing q a with
  | zero => exact ⟨q, a, .nil, by simpa using path⟩
  | succ m ih =>
    rw [Nat.succ_add] at path
    cases path with
    | cons turn marks moves rest =>
      obtain ⟨middle, c, first, second⟩ := ih rest
      exact ⟨middle, c, .cons turn marks moves first, second⟩

/-- A path that the fuse allows is driven to its end, whatever comes behind it. -/
theorem drive_of_path {count : Nat} (path : control.Path count q a r b) (shown : h.Shows a)
    (allowed : ∀ limit ∈ h.stepLimit, h.steps + count ≤ limit) (turns : Nat) :
    ∃ after, control.drive (turns + count) q h = control.drive turns r after ∧
      h.Reaches count b after := by
  induction path generalizing h with
  | nil => exact ⟨h, rfl, .refl shown⟩
  | @cons count q next _ w d a c e _ turn marks moves _ ih =>
    have first : h.Reaches 1 e ((h.mark w).move d) := by
      simpa using (shown.reaches_mark marks).trans ((shown.mark marks).reaches_move moves)
    have allowed' : ∀ limit ∈ ((h.mark w).move d).stepLimit,
        ((h.mark w).move d).steps + count ≤ limit := by
      intro limit member
      rw [first.stepLimit] at member
      rw [first.steps]
      have := allowed limit member
      omega
    have unblown : ((h.mark w).move d).fuse = none := by
      rw [Head.fuse_eq_none_iff]
      intro limit member
      exact Nat.le_of_add_right_le (allowed' limit member)
    obtain ⟨after, driven, reaches⟩ := ih first.shown allowed'
    refine ⟨after, ?_, ?_⟩
    · rw [← Nat.add_assoc, drive_go (shown.symbol ▸ turn) unblown]
      exact driven
    · simpa [Nat.add_comm] using first.trans reaches

theorem drive_of_ends {count patience : Nat} {result : ρ} (ends : control.Ends count q a result b)
    (shown : h.Shows a) (affords : h.Affords patience count) :
    ∃ after, control.drive (h.turns patience) q h = (.done result, after) ∧
      h.Reaches count b after := by
  obtain ⟨path, turn, marks⟩ := ends
  obtain ⟨spare, enough⟩ := Nat.exists_eq_add_of_lt affords.turns
  obtain ⟨after, driven, reaches⟩ := drive_of_path path shown affords.limit (spare + 1)
  refine ⟨_, ?_, by simpa using reaches.trans (reaches.shown.reaches_mark marks)⟩
  rw [enough, show count + spare + 1 = spare + 1 + count by omega, driven]
  exact drive_finish (reaches.shown.symbol ▸ turn)

theorem drive_of_refuses {count patience : Nat} {fault : Fault}
    (refuses : control.Refuses count q a fault) (shown : h.Shows a)
    (affords : h.Affords patience count) :
    ∃ after, control.drive (h.turns patience) q h = (.failed fault, after) := by
  obtain ⟨path, turn⟩ := refuses
  obtain ⟨spare, enough⟩ := Nat.exists_eq_add_of_lt affords.turns
  obtain ⟨after, driven, reaches⟩ := drive_of_path path shown affords.limit (spare + 1)
  refine ⟨after, ?_⟩
  rw [enough, show count + spare + 1 = spare + 1 + count by omega, driven]
  exact drive_refuse (reaches.shown.symbol ▸ turn)

theorem drive_done {count : Nat} {result other : ρ} (ends : control.Ends count q a result b)
    (shown : h.Shows a) {turns : Nat} (answered : (control.drive turns q h).1 = .done other) :
    other = result ∧ (control.drive turns q h).2.Shows b := by
  obtain ⟨path, last, mark⟩ := ends
  induction path generalizing h turns with
  | nil =>
    cases turns with
    | zero => cases answered
    | succ turns =>
      rw [drive_finish (shown.symbol ▸ last)] at answered ⊢
      cases answered
      exact ⟨rfl, shown.mark mark⟩
  | @cons _ _ _ _ w d _ _ _ _ turn marks moves _ ih =>
    cases turns with
    | zero => cases answered
    | succ turns =>
      have turn := shown.symbol ▸ turn
      cases fuse : ((h.mark w).move d).fuse with
      | some fault =>
        rw [drive_blown turn fuse] at answered
        cases answered
      | none =>
        rw [drive_go turn fuse] at answered ⊢
        exact ih ((shown.mark marks).move moves) answered last mark

theorem drive_of_short_fuse {count patience limit : Nat} (path : control.Path count q a r b)
    (shown : h.Shows a) (fused : h.stepLimit = some limit) (unblown : h.steps ≤ limit)
    (short : limit < h.steps + count) :
    ∃ after, control.drive (h.turns patience) q h = (.failed (.stepLimitExceeded limit), after) ∧
      after.stepLimit = some limit ∧ after.steps = limit + 1 := by
  -- The path is cut where the limit is reached; the next move is the one too many.
  have parts : count = (limit - h.steps) + (count - (limit - h.steps)) := by omega
  rw [parts] at path
  obtain ⟨middle, c, first, second⟩ := path.split
  obtain ⟨last, driven, reaches⟩ := drive_of_path first shown
    (by intro other member; rw [fused] at member; cases member; omega) 1
  have turns : h.turns patience = 1 + (limit - h.steps) := by
    unfold Head.turns
    simp only [fused]
    omega
  rw [turns, driven]
  cases rest : count - (limit - h.steps) with
  | zero => omega
  | succ left =>
    rw [rest] at second
    cases second with
    | @cons _ _ _ _ w d _ _ _ _ turn marks moves _ =>
      have stepLimit : ((last.mark w).move d).stepLimit = some limit := by
        simp [reaches.stepLimit, fused]
      have steps : ((last.mark w).move d).steps = limit + 1 := by
        simp [reaches.steps]
        omega
      have blown : ((last.mark w).move d).fuse = some (.stepLimitExceeded limit) := by
        rw [Head.fuse_eq_some_iff]
        exact ⟨limit, stepLimit, by omega, rfl⟩
      exact ⟨_, drive_blown (reaches.shown.symbol ▸ turn) blown, stepLimit, steps⟩

theorem drive_of_short_patience {count turns : Nat} (path : control.Path count q a r b)
    (shown : h.Shows a) (unfused : h.stepLimit = none) (short : turns ≤ count) :
    (control.drive turns q h).1 = .unfinished := by
  obtain ⟨rest, rfl⟩ := Nat.exists_eq_add_of_le short
  obtain ⟨middle, c, first, -⟩ := path.split
  obtain ⟨after, driven, -⟩ := drive_of_path first shown (by simp [unfused]) 0
  rw [Nat.zero_add] at driven
  rw [driven]
  rfl

end Control

end TuringMultiplier
