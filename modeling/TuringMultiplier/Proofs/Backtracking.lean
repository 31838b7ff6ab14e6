import TuringMultiplier.Pattern
import Mathlib.Data.List.Basic

/-! An engine that reads a pattern from left to right and tries all matches, one after the other. It
does what is relied on: reading undoes writing, and a search finds what occurs. -/

set_option autoImplicit false

namespace TuringMultiplier.Pattern

variable {a : Atom} {part : Part} {p : Pattern} {before rest : List Char}

section Search

def repeated (admits : Char → Bool) (next : List Char → Bool) : List Char → Bool
  | [] => false
  | c :: rest => admits c && (next rest || repeated admits next rest)

/-- A match at the front of `rest`, which is the whole text if it is `fresh`. -/
def matchesFront : Pattern → (fresh : Bool) → (rest : List Char) → Bool
  | [], _, _ => true
  | .start :: p, fresh, rest => fresh && matchesFront p fresh rest
  | .stop :: p, fresh, rest => rest.isEmpty && matchesFront p fresh rest
  | .once _ :: _, _, [] => false
  | .once a :: p, _, c :: rest => a.admits c && matchesFront p false rest
  | .many a :: p, _, rest => repeated a.admits (matchesFront p false) rest

def search (p : Pattern) (text : List Char) : Bool :=
  (List.range (text.length + 1)).any fun n => matchesFront p (n == 0) (text.drop n)

theorem repeated_iff {admits : Char → Bool} {next : List Char → Bool} :
    repeated admits next rest ↔ ∃ piece after, rest = piece ++ after ∧
      (piece ≠ [] ∧ ∀ c ∈ piece, admits c) ∧ next after := by
  induction rest with
  | nil => simp [repeated]
  | cons c rest ih =>
    rw [repeated, Bool.and_eq_true, Bool.or_eq_true, ih]
    constructor
    · rintro ⟨admitted, ended | ⟨piece, after, rfl, ⟨-, all⟩, ended⟩⟩
      · exact ⟨[c], rest, rfl, by simpa using admitted, ended⟩
      · exact ⟨c :: piece, after, rfl, by simpa using ⟨admitted, all⟩, ended⟩
    · rintro ⟨piece, after, split, ⟨nonempty, all⟩, ended⟩
      cases piece with
      | nil => exact absurd rfl nonempty
      | cons d piece =>
        obtain ⟨rfl, rfl⟩ := List.cons.inj split
        refine ⟨all c List.mem_cons_self, ?_⟩
        cases piece with
        | nil => exact .inl ended
        | cons d piece =>
          exact .inr ⟨_, after, rfl, ⟨by simp, fun e member => all e (.tail c member)⟩, ended⟩

theorem matchesFront_iff : matchesFront p before.isEmpty rest ↔ p.MatchesAt before rest := by
  induction p generalizing before rest with
  | nil => simp [matchesFront, MatchesAt]
  | cons part p ih =>
    have next {piece after : List Char} (nonempty : piece ≠ []) :
        matchesFront p false after ↔ MatchesAt p (before ++ piece) after := by
      rw [← ih, List.isEmpty_eq_false_iff.mpr (List.append_ne_nil_of_right_ne_nil _ nonempty)]
    cases part with
    | start =>
      simp only [matchesFront, Bool.and_eq_true, ih, List.isEmpty_iff]
      constructor
      · rintro ⟨rfl, found⟩
        exact ⟨[], rest, rfl, ⟨rfl, rfl⟩, found⟩
      · rintro ⟨_, after, rfl, ⟨rfl, rfl⟩, found⟩
        exact ⟨rfl, found⟩
    | stop =>
      simp only [matchesFront, Bool.and_eq_true, ih, List.isEmpty_iff]
      constructor
      · rintro ⟨rfl, found⟩
        exact ⟨[], [], rfl, ⟨rfl, rfl⟩, by rwa [List.append_nil]⟩
      · rintro ⟨_, _, rfl, ⟨rfl, rfl⟩, found⟩
        exact ⟨rfl, by rwa [List.append_nil] at found⟩
    | once a =>
      cases rest with
      | nil => simp [matchesFront, MatchesAt, Part.Matches]
      | cons c rest =>
        rw [matchesFront, Bool.and_eq_true]
        constructor
        · rintro ⟨admitted, found⟩
          exact ⟨[c], rest, rfl, ⟨c, rfl, admitted⟩, (next (List.cons_ne_nil c [])).mp found⟩
        · rintro ⟨_, after, split, ⟨d, rfl, admitted⟩, found⟩
          obtain ⟨rfl, rfl⟩ := List.cons.inj split
          exact ⟨admitted, (next (List.cons_ne_nil c [])).mpr found⟩
    | many a =>
      rw [matchesFront, repeated_iff]
      refine exists_congr fun piece => exists_congr fun after => and_congr_right fun _ => ?_
      exact and_congr_right fun repeats => next repeats.1

theorem search_iff {text : List Char} : p.search text ↔ p.Occurs text := by
  simp only [search, List.any_eq_true, List.mem_range, Nat.lt_succ_iff]
  constructor
  · rintro ⟨n, within, found⟩
    have fresh : (n == 0) = (text.take n).isEmpty := by
      rw [Bool.eq_iff_iff, beq_iff_eq, List.isEmpty_iff, ← List.length_eq_zero_iff, List.length_take]
      omega
    rw [fresh, matchesFront_iff] at found
    exact ⟨text.take n, text.drop n, (List.take_append_drop n text).symm, found⟩
  · rintro ⟨before, rest, rfl, found⟩
    have fresh : (before.length == 0) = before.isEmpty := by cases before <;> rfl
    refine ⟨before.length, by simp, ?_⟩
    rwa [List.drop_left, fresh, matchesFront_iff]

end Search

section Reading

inductive Reading where
  | parts
  /-- Behind a backslash. -/
  | escaped
  /-- Between brackets, behind some characters. -/
  | within (chars : List Char)

def special : List Char :=
  ['\\', '.', '+', '*', '?', '(', ')', '|', '[', ']', '\x7b', '\x7d', '^', '$', '#', '&', '-', '~']

/-- Reads one character. The parts that are done and the characters in brackets are in reverse. -/
def readNext : Reading × Pattern → Char → Option (Reading × Pattern)
  | (.parts, done), c =>
    if c ∉ special then some (.parts, .once (.literal c) :: done)
    else
      match c, done with
      | '^', done => some (.parts, .start :: done)
      | '$', done => some (.parts, .stop :: done)
      | '+', .once a :: done => some (.parts, .many a :: done)
      | '\\', done => some (.escaped, done)
      | '[', done => some (.within [], done)
      | _, _ => none
  | (.escaped, done), c =>
    if c ∈ special then some (.parts, .once (.literal c) :: done) else none
  | (.within chars, done), c =>
    if c = ']' then some (.parts, .once (.oneOf chars.reverse) :: done)
    else some (.within (c :: chars), done)

def read (text : String) : Option Pattern :=
  match text.toList.foldlM readNext (.parts, []) with
  | some (.parts, done) => some done.reverse
  | _ => none

def escape (text : String) : String :=
  String.ofList (text.toList.flatMap fun c => if c ∈ special then ['\\', c] else [c])

theorem readNext_chars {chars : List Char} (inner : ']' ∉ chars) (seen : List Char)
    (done : Pattern) :
    chars.foldlM readNext (.within seen, done) = some (.within (chars.reverse ++ seen), done) := by
  induction chars generalizing seen with
  | nil => rfl
  | cons c chars ih =>
    rw [List.mem_cons, not_or] at inner
    have next : readNext (.within seen, done) c = some (.within (c :: seen), done) :=
      if_neg (Ne.symm inner.1)
    rw [List.foldlM_cons, next]
    simpa using ih inner.2 (c :: seen)

theorem readNext_atom (plain : a.Plain) (done : Pattern) :
    (a.written escape).toList.foldlM readNext (.parts, done) =
      some (.parts, .once a :: done) := by
  cases a with
  | literal c =>
    by_cases marked : c ∈ special
    · have written : ((Atom.literal c).written escape).toList = ['\\', c] := by
        simp [Atom.written, escape, marked]
      have leave : readNext (.escaped, done) c = some (.parts, .once (.literal c) :: done) :=
        if_pos marked
      have enter : readNext (.parts, done) '\\' = some (.escaped, done) := rfl
      rw [written, List.foldlM_cons, enter, Option.bind_eq_bind, Option.bind_some,
        List.foldlM_cons, leave]
      rfl
    · have written : ((Atom.literal c).written escape).toList = [c] := by
        simp [Atom.written, escape, marked]
      have next : readNext (.parts, done) c = some (.parts, .once (.literal c) :: done) :=
        if_pos marked
      rw [written, List.foldlM_cons, next]
      rfl
  | oneOf chars =>
    have inner : ']' ∉ chars := fun member => absurd (plain.2.2 ']' member) (by decide)
    have written : ((Atom.oneOf chars).written escape).toList = '[' :: (chars ++ [']']) := by
      simp [Atom.written]
    have enter : readNext (.parts, done) '[' = some (.within [], done) := rfl
    have leave : readNext (.within (chars.reverse ++ []), done) ']' =
        some (.parts, .once (.oneOf chars) :: done) := by
      simp [readNext]
    rw [written, List.foldlM_cons, enter]
    simp only [bind, Option.bind, List.foldlM_append, readNext_chars inner, List.foldlM_cons, leave]
    rfl

theorem readNext_part (plain : part.Plain) (done : Pattern) :
    (part.written escape).toList.foldlM readNext (.parts, done) = some (.parts, part :: done) := by
  cases part with
  | start | stop => rfl
  | once a => exact readNext_atom plain done
  | many a =>
    rw [Part.written, String.toList_append, List.foldlM_append, readNext_atom plain]
    rfl

theorem readNext_parts (plain : p.Plain) (done : Pattern) :
    (p.flatMap fun part => (part.written escape).toList).foldlM readNext (.parts, done) =
      some (.parts, p.reverse ++ done) := by
  induction p generalizing done with
  | nil => rfl
  | cons part p ih =>
    obtain ⟨first, others⟩ := List.forall_mem_cons.mp plain
    rw [List.flatMap_cons, List.foldlM_append, readNext_part first]
    simpa using ih others (part :: done)

theorem read_written (plain : p.Plain) : read (p.written escape) = some p := by
  have parts := readNext_parts plain []
  rw [read, written, String.toList_join, List.flatMap_map, parts]
  simp

end Reading

def backtracking : Engine where
  escape := escape
  compile text := (read text).map fun p text => p.search text.toList

theorem backtracking_standard : backtracking.Standard := by
  have compiled {p : Pattern} (plain : p.Plain) :
      backtracking.compile (p.written escape) = some fun text => p.search text.toList :=
    congrArg (Option.map _) (read_written plain)
  constructor
  · intro p plain _
    exact Option.isSome_of_mem (compiled plain)
  · intro p plain search member text
    cases (compiled plain).symm.trans member
    exact search_iff

end TuringMultiplier.Pattern
