import TuringMultiplier.Control
import TuringMultiplier.Proofs.Span

/-! Walks of a control over a span, counted in moves. A path says nothing about a fuse; driving a
head along it either gets to the end of the path or blows the fuse on the way. Single turns and
sweeps over a row of cells are the pieces from which the paths of a phase are put together. -/

set_option autoImplicit false

namespace TuringMultiplier.Control

variable {σ ρ : Type} {control : Control σ ρ}

/-- `count` turns that all move, from state `q` on one span to state `r` on another. -/
inductive Path (control : Control σ ρ) : Nat → σ → Span → σ → Span → Prop where
  | nil {q : σ} {a : Span} : Path control 0 q a q a
  | cons {count : Nat} {q r last : σ} {w : List Symbol} {d : Direction} {a b c e : Span}
      (turn : control q a.symbol = .go w d r) (marks : Span.Marks w a b) (moves : Span.Moves d b c)
      (rest : Path control count r c last e) : Path control (count + 1) q a last e

inductive Ends (control : Control σ ρ) (count : Nat) (q : σ) (a : Span) (result : ρ) (b : Span) :
    Prop where
  | intro {r : σ} {c : Span} {w : List Symbol} (path : control.Path count q a r c)
      (turn : control r c.symbol = .finish w result) (marks : Span.Marks w c b)

inductive Refuses (control : Control σ ρ) (count : Nat) (q : σ) (a : Span) (fault : Fault) : Prop where
  | intro {r : σ} {b : Span} (path : control.Path count q a r b)
      (turn : control r b.symbol = .refuse fault)

theorem Path.trans {m n : Nat} {q r last : σ} {a b c : Span} (first : control.Path m q a r b)
    (second : control.Path n r b last c) : control.Path (m + n) q a last c := by
  induction first with
  | nil => simpa using second
  | cons turn marks moves _ ih =>
    rw [Nat.add_right_comm]
    exact .cons turn marks moves (ih second)

theorem Path.ends {m n : Nat} {q r : σ} {a b c : Span} {result : ρ} (first : control.Path m q a r b)
    (second : control.Ends n r b result c) : control.Ends (m + n) q a result c := by
  obtain ⟨path, turn, marks⟩ := second
  exact ⟨first.trans path, turn, marks⟩

theorem Path.refuses {m n : Nat} {q r : σ} {a b : Span} {fault : Fault}
    (first : control.Path m q a r b) (second : control.Refuses n r b fault) :
    control.Refuses (m + n) q a fault := by
  obtain ⟨path, turn⟩ := second
  exact ⟨first.trans path, turn⟩

theorem Path.finish {count : Nat} {q r : σ} {a b : Span} {result : ρ}
    (path : control.Path count q a r b) (turn : control r b.symbol = .finish [] result) :
    control.Ends count q a result b :=
  ⟨path, turn, .keep b⟩

section Turns

variable {q r : σ} {behind ahead : List Symbol} {s new : Symbol}

theorem Path.right (turn : control q s = .go [] .right r) (stored : s ≠ .blank) :
    control.Path 1 q ⟨behind, s :: ahead⟩ r ⟨s :: behind, ahead⟩ :=
  .cons turn (.keep _) (.right stored) .nil

theorem Path.putRight (turn : control q s = .go [new] .right r) (solid : new ≠ .blank) :
    control.Path 1 q ⟨behind, s :: ahead⟩ r ⟨new :: behind, ahead⟩ :=
  .cons turn (.alone (.put solid)) (.right solid) .nil

theorem Path.putTwice {brief : Symbol} (turn : control q s = .go [brief, new] .right r)
    (solid : brief ≠ .blank) (solid' : new ≠ .blank) :
    control.Path 1 q ⟨behind, s :: ahead⟩ r ⟨new :: behind, ahead⟩ :=
  .cons turn (.next (.put solid) (.alone (.put solid'))) (.right solid') .nil

theorem Path.left (turn : control q s = .go [] .left r) (stored : s ≠ .blank) :
    control.Path 1 q ⟨behind, s :: ahead⟩ r (Span.leftOf behind (s :: ahead)) :=
  .cons turn (.keep _) (.left (.inr (by simpa using stored))) .nil

theorem Path.putLeft (turn : control q s = .go [new] .left r) (solid : new ≠ .blank) :
    control.Path 1 q ⟨behind, s :: ahead⟩ r (Span.leftOf behind (new :: ahead)) :=
  .cons turn (.alone (.put solid)) (.left (.inr (by simpa using solid))) .nil

theorem Path.enter (turn : control q .blank = .go [] .right r) :
    control.Path 1 q ⟨[], .blank :: ahead⟩ r ⟨[], ahead⟩ :=
  .cons turn (.keep _) .enter .nil

-- An erased first cell is gone: until it moves on, the head stands in front of the tape.
theorem Path.erase (turn : control q s = .go [.blank] .right r)
    (next : ahead.head? ≠ some .blank) (stored : s ≠ .blank) :
    control.Path 1 q ⟨[], s :: ahead⟩ r ⟨[], ahead⟩ :=
  .cons turn (.alone (.eraseFirst stored next)) .enter .nil

theorem Path.turnBack (turn : control q .blank = .go [] .left r) :
    control.Path 1 q ⟨behind, []⟩ r (Span.leftOf behind []) :=
  .cons turn (.keep _) (.left (.inr (by simp))) .nil

theorem Path.append (turn : control q .blank = .go [new] .left r) (solid : new ≠ .blank) :
    control.Path 1 q ⟨behind, []⟩ r (Span.leftOf behind [new]) :=
  .cons turn (.alone (.append solid)) (.left (.inr (by simpa using solid))) .nil

theorem Path.chop {neighbour : Symbol} (turn : control q s = .go [.blank] .left r)
    (solid : neighbour ≠ .blank) :
    control.Path 1 q ⟨neighbour :: behind, [s]⟩ r ⟨behind, [neighbour]⟩ :=
  .cons turn (.alone (.eraseLast solid)) (.left (.inr (by simp))) .nil

end Turns

section Sweeps

/-- In state `q` the control walks on over each of the symbols and leaves `f s` in place of `s`. -/
def Sweeps (control : Control σ ρ) (q : σ) (d : Direction) (f : Symbol → Symbol)
    (alphabet : List Symbol) : Prop :=
  ∀ s ∈ alphabet, f s ≠ .blank ∧
    (control q s = .go [] d q ∧ f s = s ∨ control q s = .go [f s] d q)

instance [DecidableEq σ] [DecidableEq ρ] (q : σ) (d : Direction) (f : Symbol → Symbol)
    (alphabet : List Symbol) : Decidable (control.Sweeps q d f alphabet) :=
  inferInstanceAs (Decidable (∀ s ∈ alphabet, _ ∧ (_ ∧ _ ∨ _)))

variable {q : σ} {row behind ahead : List Symbol}

theorem Path.sweepRight (f : Symbol → Symbol) (alphabet : List Symbol)
    (sweeps : control.Sweeps q .right f alphabet) (within : row ⊆ alphabet) :
    control.Path row.length q ⟨behind, row ++ ahead⟩ q ⟨(row.map f).reverse ++ behind, ahead⟩ := by
  -- A cell that keeps its symbol is walked over without a write.
  induction row generalizing behind with
  | nil => exact .nil
  | cons s row ih =>
    obtain ⟨member, within⟩ := List.cons_subset.mp within
    obtain ⟨solid, turn⟩ := sweeps s member
    have step : control.Path 1 q ⟨behind, s :: (row ++ ahead)⟩ q ⟨f s :: behind, row ++ ahead⟩ := by
      rcases turn with ⟨turn, same⟩ | turn
      · rw [same] at solid ⊢
        exact .right turn solid
      · exact .putRight turn solid
    simpa [Nat.add_comm] using step.trans (ih within)

theorem Path.sweepLeft (f : Symbol → Symbol) (alphabet : List Symbol)
    (sweeps : control.Sweeps q .left f alphabet) (within : row ⊆ alphabet) :
    control.Path row.length q (Span.leftOf (row ++ behind) ahead) q
      (Span.leftOf behind ((row.map f).reverse ++ ahead)) := by
  induction row generalizing ahead with
  | nil => exact .nil
  | cons s row ih =>
    obtain ⟨member, within⟩ := List.cons_subset.mp within
    obtain ⟨solid, turn⟩ := sweeps s member
    have step : control.Path 1 q ⟨row ++ behind, s :: ahead⟩ q
        (Span.leftOf (row ++ behind) (f s :: ahead)) := by
      rcases turn with ⟨turn, same⟩ | turn
      · rw [same] at solid ⊢
        exact .left turn solid
      · exact .putLeft turn solid
    simpa [Nat.add_comm, Span.leftOf] using step.trans (ih within)

theorem Path.scanRight (alphabet : List Symbol) (sweeps : control.Sweeps q .right id alphabet)
    (within : row ⊆ alphabet) :
    control.Path row.length q ⟨behind, row ++ ahead⟩ q ⟨row.reverse ++ behind, ahead⟩ := by
  simpa using Path.sweepRight id alphabet sweeps within

theorem Path.scanLeft (alphabet : List Symbol) (sweeps : control.Sweeps q .left id alphabet)
    (within : row ⊆ alphabet) :
    control.Path row.length q (Span.leftOf (row ++ behind) ahead) q
      (Span.leftOf behind (row.reverse ++ ahead)) := by
  simpa using Path.sweepLeft id alphabet sweeps within

theorem Path.scanBack {r : σ} {t : Symbol} {base : List Symbol} (alphabet : List Symbol)
    (back : control.Sweeps q .left id alphabet) (turn : control q t = .go [] .right r)
    (within : row ⊆ alphabet) (stored : t ≠ .blank) :
    control.Path (row.length + 1) q (Span.leftOf (row ++ t :: base) ahead)
      r ⟨t :: base, row.reverse ++ ahead⟩ := by
  have home : control.Path row.length q (Span.leftOf (row ++ t :: base) ahead)
      q ⟨base, t :: (row.reverse ++ ahead)⟩ := .scanLeft alphabet back within
  exact home.trans (.right turn stored)

theorem Path.runRight {s : Symbol} (turn : control q s = .go [] .right q) (count : Nat)
    (stored : s ≠ .blank) :
    control.Path count q ⟨behind, List.replicate count s ++ ahead⟩
      q ⟨List.replicate count s ++ behind, ahead⟩ := by
  have sweeps : control.Sweeps q .right id [s] := by simp [Sweeps, stored, turn]
  have within : List.replicate count s ⊆ [s] := List.replicate_subset.mpr (.inr (by simp))
  simpa using Path.scanRight [s] sweeps within

theorem Path.runLeft {s : Symbol} (turn : control q s = .go [] .left q) (count : Nat)
    (stored : s ≠ .blank) :
    control.Path count q (Span.leftOf (List.replicate count s ++ behind) ahead)
      q (Span.leftOf behind (List.replicate count s ++ ahead)) := by
  have sweeps : control.Sweeps q .left id [s] := by simp [Sweeps, stored, turn]
  have within : List.replicate count s ⊆ [s] := List.replicate_subset.mpr (.inr (by simp))
  simpa using Path.scanLeft [s] sweeps within

theorem Path.roundTripOver {r : σ} {s t : Symbol} {passed base : List Symbol}
    (alphabet other : List Symbol) (seek : control.Sweeps q .right id alphabet)
    (turn : control q .blank = .go [s] .left r) (solid : s ≠ .blank)
    (back : control.Sweeps r .left id other) (within : row ⊆ alphabet)
    (between : passed ++ row ⊆ other) :
    control.Path (2 * row.length + passed.length + 1) q ⟨passed ++ t :: base, row⟩
      r ⟨base, t :: (passed.reverse ++ row ++ [s])⟩ := by
  have out : control.Path row.length q ⟨passed ++ t :: base, row ++ []⟩
      q ⟨row.reverse ++ (passed ++ t :: base), []⟩ := .scanRight alphabet seek within
  rw [List.append_nil] at out
  have write : control.Path 1 q ⟨row.reverse ++ (passed ++ t :: base), []⟩
      r (Span.leftOf (row.reverse ++ passed ++ t :: base) [s]) := by
    rw [List.append_assoc]
    exact .append turn solid
  have home : control.Path (row.reverse ++ passed).length r
      (Span.leftOf (row.reverse ++ passed ++ t :: base) [s])
      r (Span.leftOf (t :: base) ((row.reverse ++ passed).reverse ++ [s])) := by
    apply Path.scanLeft other back
    simpa [and_comm] using between
  convert out.trans (write.trans home) using 1
  · simp
    omega
  · simp [Span.leftOf]

theorem Path.roundTrip {r : σ} {s t : Symbol} {base : List Symbol} (alphabet : List Symbol)
    (seek : control.Sweeps q .right id alphabet) (turn : control q .blank = .go [s] .left r)
    (solid : s ≠ .blank) (back : control.Sweeps r .left id alphabet) (within : row ⊆ alphabet) :
    control.Path (2 * row.length + 1) q ⟨t :: base, row⟩ r ⟨base, t :: (row ++ [s])⟩ := by
  have between : [] ++ row ⊆ alphabet := within
  simpa using Path.roundTripOver alphabet alphabet seek turn solid back within between

/-- In state `q` the control takes each of the symbols off the left end and walks on. -/
def Erases (control : Control σ ρ) (q : σ) (alphabet : List Symbol) : Prop :=
  ∀ s ∈ alphabet, s ≠ .blank ∧ control q s = .go [.blank] .right q

instance [DecidableEq σ] [DecidableEq ρ] (q : σ) (alphabet : List Symbol) :
    Decidable (control.Erases q alphabet) :=
  inferInstanceAs (Decidable (∀ s ∈ alphabet, _ ∧ _))

theorem Path.eraseRow (alphabet : List Symbol) (erases : control.Erases q alphabet)
    (within : row ⊆ alphabet) (next : ahead.head? ≠ some .blank) :
    control.Path row.length q ⟨[], row ++ ahead⟩ q ⟨[], ahead⟩ := by
  -- The next cell is not a blank, so only one cell goes at a time.
  induction row with
  | nil => exact .nil
  | cons s row ih =>
    obtain ⟨member, within⟩ := List.cons_subset.mp within
    obtain ⟨stored, turn⟩ := erases s member
    have solid : (row ++ ahead).head? ≠ some .blank := by
      cases row with
      | nil => exact next
      | cons t row => simpa using (erases t (within (by simp))).1
    simpa [Nat.add_comm] using (Path.erase turn solid stored).trans (ih within)

end Sweeps

end TuringMultiplier.Control
