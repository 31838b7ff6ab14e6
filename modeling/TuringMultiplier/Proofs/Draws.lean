import Mathlib.Algebra.Group.Nat.Defs
import TuringMultiplier.Random.Factors

/-! What random draws give. A draw that ends gives a number below its bound, and so a factor has at
most the width that was asked for, and a list of pairs has as many as there are rounds. Fewer rounds
draw the first of the pairs, whatever is rejected on the way, and the bounds of all draws fit a word. -/

set_option autoImplicit false

namespace TuringMultiplier.Random

variable {α β : Type} {g after : Generator} {width bound patience maxBits rounds n : Nat}
  {word : Draw Nat}

theorem bind_eq_some_iff {first : Draw α} {next : α → Draw β} {b : β} :
    (first >>= next) g = some (b, after) ↔
      ∃ a between, first g = some (a, between) ∧ next a between = some (b, after) := by
  change (first g).bind _ = _ ↔ _
  rw [Option.bind_eq_some_iff, Prod.exists]

theorem below_lt (narrow : ∀ {g drawn after}, word g = some (drawn, after) → drawn < 2 ^ width)
    (positive : 0 < bound) (drawn : below width word bound patience g = some (n, after)) :
    n < bound := by
  induction patience generalizing g with
  | zero => cases drawn
  | succ patience ih =>
    rw [below] at drawn
    obtain ⟨found, between, first, drawn⟩ := bind_eq_some_iff.mp drawn
    split at drawn
    · cases drawn
      apply Nat.div_lt_of_lt_mul
      exact Nat.mul_lt_mul_of_pos_right (narrow first) positive
    · exact ih drawn

theorem word64_lt (drawn : word64 g = some (n, after)) : n < 2 ^ 64 := by
  cases drawn
  exact UInt64.toNat_lt _

theorem word32_lt (drawn : word32 g = some (n, after)) : n < 2 ^ 32 := by
  cases drawn
  have whole := g.next.1.toNat_lt
  have half : (g.next.1 >>> 32).toNat = g.next.1.toNat / 2 ^ 32 := by
    rw [UInt64.toNat_shiftRight, Nat.shiftRight_eq_div_pow]
    rfl
  change (g.next.1 >>> 32).toNat < 2 ^ 32
  omega

theorem clampWidth_pos (maxBits : Nat) : 0 < clampWidth maxBits := by
  unfold clampWidth
  omega

theorem clampWidth_le (maxBits : Nat) : clampWidth maxBits ≤ 64 := Nat.min_le_right ..

theorem lt_clampWidth (drawn : below 32 word32 (clampWidth maxBits) patience g = some (n, after)) :
    n < clampWidth maxBits := below_lt word32_lt (clampWidth_pos maxBits) drawn

theorem factor_lt (drawn : factor patience maxBits g = some (n, after)) :
    n < 2 ^ clampWidth maxBits := by
  rw [factor] at drawn
  obtain ⟨width, between, first, drawn⟩ := bind_eq_some_iff.mp drawn
  have narrow := lt_clampWidth first
  have fits : n < 2 ^ (1 + width) := by
    split at drawn
    · next full =>
      rw [full]
      exact word64_lt drawn
    · exact below_lt word64_lt (Nat.two_pow_pos _) drawn
  exact Nat.lt_of_lt_of_le fits (Nat.pow_le_pow_right Nat.zero_lt_two (by omega))

theorem factorPair_lt {pair : Nat × Nat} (drawn : factorPair patience maxBits g = some (pair, after)) :
    pair.1 < 2 ^ clampWidth maxBits ∧ pair.2 < 2 ^ clampWidth maxBits := by
  rw [factorPair] at drawn
  obtain ⟨first, between, left, drawn⟩ := bind_eq_some_iff.mp drawn
  obtain ⟨second, last, right, drawn⟩ := bind_eq_some_iff.mp drawn
  cases drawn
  exact ⟨factor_lt left, factor_lt right⟩

theorem forall_mem_mapM {draw : Draw α} {property : α → Prop}
    (each : ∀ {g a after}, draw g = some (a, after) → property a) {drawn : List α}
    (found : ((List.replicate rounds ()).mapM fun _ => draw) g = some (drawn, after)) :
    drawn.length = rounds ∧ ∀ a ∈ drawn, property a := by
  induction rounds generalizing g drawn with
  | zero =>
    cases found
    simp
  | succ rounds ih =>
    rw [List.replicate_succ, List.mapM_cons] at found
    obtain ⟨a, between, first, found⟩ := bind_eq_some_iff.mp found
    obtain ⟨rest, last, others, found⟩ := bind_eq_some_iff.mp found
    cases found
    obtain ⟨length, members⟩ := ih others
    exact ⟨congrArg Nat.succ length, List.forall_mem_cons.mpr ⟨each first, members⟩⟩

theorem pairs_spec {seed : UInt64} {drawn : List (Nat × Nat)}
    (found : pairs patience rounds maxBits seed = some drawn) :
    drawn.length = rounds ∧
      ∀ pair ∈ drawn, pair.1 < 2 ^ clampWidth maxBits ∧ pair.2 < 2 ^ clampWidth maxBits := by
  obtain ⟨⟨row, after⟩, row_drawn, rfl⟩ := Option.map_eq_some_iff.mp found
  exact forall_mem_mapM factorPair_lt row_drawn

theorem lt_of_pairs {seed : UInt64} {drawn : List (Nat × Nat)}
    (found : pairs patience rounds maxBits seed = some drawn) :
    ∀ pair ∈ drawn, pair.1 < 2 ^ 64 ∧ pair.2 < 2 ^ 64 := by
  intro pair member
  have widest : 2 ^ clampWidth maxBits ≤ 2 ^ 64 :=
    Nat.pow_le_pow_right Nat.zero_lt_two (clampWidth_le maxBits)
  obtain ⟨narrow, narrow'⟩ := (pairs_spec found).2 pair member
  exact ⟨Nat.lt_of_lt_of_le narrow widest, Nat.lt_of_lt_of_le narrow' widest⟩

section Rounds

variable {draw : Draw α} {row : List α} {further more : Nat}

/-- A longer row of draws goes on with the generator that a shorter one leaves behind. -/
theorem exists_rest_of_mapM
    (found : ((List.replicate (rounds + further) ()).mapM fun _ => draw) g = some (row, after)) :
    ∃ first between rest,
      ((List.replicate rounds ()).mapM fun _ => draw) g = some (first, between) ∧
        ((List.replicate further ()).mapM fun _ => draw) between = some (rest, after) ∧
        row = first ++ rest := by
  rw [← List.replicate_append_replicate, List.mapM_append] at found
  obtain ⟨first, between, few, found⟩ := bind_eq_some_iff.mp found
  obtain ⟨rest, last, others, found⟩ := bind_eq_some_iff.mp found
  cases found
  exact ⟨first, between, rest, few, others, rfl⟩

theorem pairs_take {seed : UInt64} {drawn : List (Nat × Nat)} (le : rounds ≤ more)
    (found : pairs patience more maxBits seed = some drawn) :
    pairs patience rounds maxBits seed = some (drawn.take rounds) := by
  obtain ⟨further, rfl⟩ := Nat.exists_eq_add_of_le le
  obtain ⟨⟨row, after⟩, row_drawn, rfl⟩ := Option.map_eq_some_iff.mp found
  obtain ⟨first, between, rest, few, -, rfl⟩ := exists_rest_of_mapM row_drawn
  obtain ⟨length, -⟩ := forall_mem_mapM factorPair_lt few
  have firsts : (first ++ rest).take rounds = first := length ▸ List.take_left
  exact Option.map_eq_some_iff.mpr ⟨(first, between), few, firsts.symm⟩

end Rounds

section Shifts

def shiftedOne (places : Nat) : Option UInt64 :=
  if places < 64 then some (1 <<< places.toUInt64) else none

/-- A factor whose bound is shifted into place in a word. A bound that leaves its word cuts the draw
short, which is told apart from a draw that gives up. -/
def shiftingFactor (patience maxBits : Nat) : OptionT Draw Nat := do
  let width := 1 + (← below 32 word32 (clampWidth maxBits) patience)
  if width = 64 then word64 else
    let bound ← OptionT.mk (pure (shiftedOne width))
    below 64 word64 bound.toNat patience

def shiftingPair (patience maxBits : Nat) : OptionT Draw (Nat × Nat) := do
  let first ← shiftingFactor patience maxBits
  let second ← shiftingFactor patience maxBits
  return (first, second)

/-- The pairs that a seed gives when all bounds are made in words. The inner `none` is a bound that
has left its word. -/
def shiftingPairs (patience rounds maxBits : Nat) (seed : UInt64) :
    Option (Option (List (Nat × Nat))) :=
  ((List.replicate rounds ()).mapM fun _ => shiftingPair patience maxBits).run.run' (.ofSeed seed)

theorem shiftedOne_of_lt {places : Nat} (inside : places < 64) :
    ∃ word, shiftedOne places = some word ∧ word.toNat = 2 ^ places := by
  have amount : places.toUInt64.toNat = places :=
    UInt64.toNat_ofNat_of_lt' (Nat.lt_trans inside (by decide))
  have fits : 2 ^ places < 2 ^ 64 := Nat.pow_lt_pow_right (by decide) inside
  refine ⟨1 <<< places.toUInt64, if_pos inside, ?_⟩
  rw [UInt64.toNat_shiftLeft, UInt64.toNat_one, amount, Nat.mod_eq_of_lt inside, Nat.one_shiftLeft,
    Nat.mod_eq_of_lt fits]

theorem liftM_bind_congr {draw : Draw α} {next other : α → OptionT Draw β}
    (same : ∀ {g a after}, draw g = some (a, after) → next a = other a) :
    (liftM draw >>= next : OptionT Draw β) = liftM draw >>= other := by
  funext g
  change ((draw g).bind _).bind _ = ((draw g).bind _).bind _
  cases drawn : draw g with
  | none => rfl
  | some found => exact congrFun (same drawn) found.2

theorem liftM_mapM (draw : Draw α) (rounds : Nat) :
    ((List.replicate rounds ()).mapM fun _ => (liftM draw : OptionT Draw α)) =
      liftM ((List.replicate rounds ()).mapM fun _ => draw) := by
  induction rounds with
  | zero => exact (liftM_pure _).symm
  | succ rounds ih => simp only [List.replicate_succ, List.mapM_cons, ih, liftM_bind, liftM_pure]

theorem run'_liftM (draw : Draw α) (g : Generator) :
    (liftM draw : OptionT Draw α).run.run' g = (draw.run' g).map some := by
  change ((draw g).bind _).map _ = ((draw g).map _).map some
  cases draw g <;> rfl

/-- The width is at most 64, and it is not shifted by when it is 64. -/
theorem shiftingFactor_eq : shiftingFactor patience maxBits = liftM (factor patience maxBits) := by
  rw [shiftingFactor, factor, liftM_bind]
  apply liftM_bind_congr
  intro g drawn after first
  have narrow := lt_clampWidth first
  have widest := clampWidth_le maxBits
  dsimp only
  split
  · rfl
  · next short =>
    obtain ⟨bound, shifted, value⟩ := shiftedOne_of_lt (by omega : 1 + drawn < 64)
    have value : bound.toNat = Nat.pow 2 (1 + drawn) := value
    rw [shifted, ← value]
    rfl

theorem shiftingPair_eq : shiftingPair patience maxBits = liftM (factorPair patience maxBits) := by
  simp only [shiftingPair, shiftingFactor_eq, factorPair, liftM_bind, liftM_pure]

/-- No bound ever leaves its word, whether the draws end or not. -/
theorem shiftingPairs_eq (seed : UInt64) : shiftingPairs patience rounds maxBits seed =
    (pairs patience rounds maxBits seed).map some := by
  rw [shiftingPairs, shiftingPair_eq, liftM_mapM]
  exact run'_liftM _ _

end Shifts

end TuringMultiplier.Random
