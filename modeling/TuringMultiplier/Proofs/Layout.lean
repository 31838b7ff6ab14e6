import TuringMultiplier.Procedure
import TuringMultiplier.Proofs.Drive
import TuringMultiplier.Proofs.Place

/-! The rows of cells that a tape of the multiplier is laid out in. -/

set_option autoImplicit false

namespace TuringMultiplier.Layout

def row (bits : List Bool) : List Symbol := bits.map .digit

def parked (bits : List Bool) : List Symbol := bits.map .standIn

def terms (second : List Bool) (places : List Nat) : List Symbol :=
  places.flatMap fun place => row second ++ List.replicate place .shift ++ [.endMark]

def shifted (second : List Bool) (place : Nat) : List Bool :=
  second ++ List.replicate place false

def summands (second : List Bool) (places : List Nat) : List Symbol :=
  places.flatMap fun place => row (shifted second place) ++ [.endMark]

def factors (used : Nat) (second : List Bool) : List Symbol :=
  List.replicate used .consumed ++ .delimiter :: row second

section Rows

variable {bits second : List Bool} {places : List Nat} {alphabet : List Symbol}

@[simp] theorem row_nil : row [] = [] := rfl

@[simp] theorem row_cons (b : Bool) : row (b :: bits) = .digit b :: row bits := rfl

@[simp] theorem row_append (low : List Bool) : row (bits ++ low) = row bits ++ row low :=
  List.map_append

@[simp] theorem length_row : (row bits).length = bits.length := List.length_map _

@[simp] theorem row_replicate_false (count : Nat) :
    row (List.replicate count false) = List.replicate count .zero := List.map_replicate

@[simp] theorem row_replicate_true (count : Nat) :
    row (List.replicate count true) = List.replicate count .one := List.map_replicate

theorem digit_mem (zero : Symbol.zero ∈ alphabet) (one : Symbol.one ∈ alphabet) (b : Bool) :
    Symbol.digit b ∈ alphabet := by
  cases b
  · exact zero
  · exact one

@[simp] theorem row_subset (zero : Symbol.zero ∈ alphabet) (one : Symbol.one ∈ alphabet) :
    row bits ⊆ alphabet := by
  intro s member
  obtain ⟨b, -, rfl⟩ := List.mem_map.mp member
  exact digit_mem zero one b

@[simp] theorem parked_nil : parked [] = [] := rfl

@[simp] theorem parked_append (low : List Bool) :
    parked (bits ++ low) = parked bits ++ parked low := List.map_append

@[simp] theorem parked_cons (b : Bool) : parked (b :: bits) = .standIn b :: parked bits := rfl

@[simp] theorem length_parked : (parked bits).length = bits.length := List.length_map _

@[simp] theorem parked_subset (zero : Symbol.standInZero ∈ alphabet)
    (one : Symbol.standInOne ∈ alphabet) : parked bits ⊆ alphabet := by
  intro s member
  obtain ⟨b, -, rfl⟩ := List.mem_map.mp member
  cases b
  · exact zero
  · exact one

@[simp] theorem map_restored_parked : (parked bits).map .restored = row bits := by
  simp [parked, row]

@[simp] theorem replicate_subset {s : Symbol} (member : s ∈ alphabet) (count : Nat) :
    List.replicate count s ⊆ alphabet := List.replicate_subset.mpr (.inr member)

-- What `erase` asks of the cells that come next.
theorem head?_ne_blank {cells after : List Symbol} (within : cells ⊆ alphabet)
    (solid : .blank ∉ alphabet) (next : after.head? ≠ some .blank) :
    (cells ++ after).head? ≠ some .blank := by
  cases cells with
  | nil => exact next
  | cons s cells =>
    rintro ⟨rfl⟩
    exact solid (within (List.mem_cons_self ..))

@[simp] theorem terms_nil : terms second [] = [] := rfl

theorem terms_concat (place : Nat) : terms second (places ++ [place]) =
    terms second places ++ (row second ++ List.replicate place .shift ++ [.endMark]) := by
  simp [terms]

theorem length_terms : (terms second places).length =
    places.length * (second.length + 1) + places.sum := by
  induction places with
  | nil => simp
  | cons place places ih =>
    rw [terms, List.flatMap_cons, List.length_append, ← terms, ih]
    simp
    ring

@[simp] theorem terms_subset (zero : Symbol.zero ∈ alphabet) (one : Symbol.one ∈ alphabet)
    (shift : Symbol.shift ∈ alphabet) (endMark : Symbol.endMark ∈ alphabet) :
    terms second places ⊆ alphabet := by
  intro s member
  obtain ⟨place, -, member⟩ := List.mem_flatMap.mp member
  have within : row second ++ List.replicate place .shift ++ [.endMark] ⊆ alphabet := by
    simp [zero, one, shift, endMark]
  exact within member

def filled : Symbol → Symbol
  | .shift => .zero
  | s => s

theorem map_filled_terms : (terms second places).map filled = summands second places := by
  have filled_digit (b : Bool) : filled (.digit b) = .digit b := by cases b <;> rfl
  have filled_row : (row second).map filled = row second := by simp [row, filled_digit]
  simp [terms, summands, shifted, List.map_flatMap, filled_row, filled]

@[simp] theorem value_shifted (place : Nat) :
    Numeral.value (shifted second place) = Numeral.value second * 2 ^ place := by
  simp [shifted, Numeral.value_append]

@[simp] theorem length_shifted (place : Nat) :
    (shifted second place).length = second.length + place := by
  simp [shifted]

@[simp] theorem summands_nil : summands second [] = [] := rfl

@[simp] theorem summands_cons (place : Nat) : summands second (place :: places) =
    row (shifted second place) ++ .endMark :: summands second places := by
  simp [summands]

theorem length_summands :
    (summands second places).length = (terms second places).length := by
  rw [← map_filled_terms, List.length_map]

@[simp] theorem summands_subset (zero : Symbol.zero ∈ alphabet) (one : Symbol.one ∈ alphabet)
    (endMark : Symbol.endMark ∈ alphabet) : summands second places ⊆ alphabet := by
  intro s member
  obtain ⟨place, -, member⟩ := List.mem_flatMap.mp member
  have within : row (shifted second place) ++ [.endMark] ⊆ alphabet := by
    simp [zero, one, endMark]
  exact within member

@[simp] theorem length_factors (used : Nat) :
    (factors used second).length = used + second.length + 1 := by
  simp [factors, Nat.add_assoc]

@[simp] theorem factors_subset (consumed : Symbol.consumed ∈ alphabet)
    (delimiter : Symbol.delimiter ∈ alphabet) (zero : Symbol.zero ∈ alphabet)
    (one : Symbol.one ∈ alphabet) (used : Nat) : factors used second ⊆ alphabet := by
  simp [factors, consumed, delimiter, zero, one]

end Rows

end TuringMultiplier.Layout
