import TuringMultiplier.Proofs.Acts
import TuringMultiplier.Proofs.Multiplication

/-! The order of the phases. A turn that moves stays in its phase, and a turn that ends a phase names
the same one or a later one, so on any tape the phases only go forward. On an input the digits of the
first factor say how often a phase comes again, and the journal notes every change between two. -/

set_option autoImplicit false

namespace TuringMultiplier

namespace Phase

def rank : Phase → Nat
  | zeroCheck => 0
  | endMark => 1
  | digitScan => 2
  | dispatch => 3
  | placeValue => 4
  | inputRemoval => 5
  | addition => 6
  | cleanup => 7
  | done => 8

theorem rank_inj {p q : Phase} (same : p.rank = q.rank) : p = q := by
  cases p <;> cases q <;> first | rfl | cases same

end Phase

namespace Procedure

section Order

variable {p q : Phase} {r t : State} {s : Symbol} {w : List Symbol} {d : Direction} {a b : Span}
  {k n : Nat}

def State.phase : State → Phase
  | zeroFirst | zeroSecond | zeroBack | zeroErase => .zeroCheck
  | endDelimiter | endBlank => .endMark
  | digitDelimiter => .digitScan
  | dispatchStart | dispatchDigit | dispatchZero
  | copyEnter | copyPick | copyAppend _ | copyReturn | copyRestore
  | shiftTally | shiftAppend | shiftReturn | shiftClear
  | termEnd | termReturn => .dispatch
  | placeStart | placeFill => .placeValue
  | removalStart | removalSeek | removalErase | removalCheck | removalMark => .inputRemoval
  | additionStart | additionCheck | additionReturn
  | topEnd _ | topPick _ | topLeave .. | bottomEnd .. | bottomPick .. | columnReturn _
  | settleTop _ | settleBottom _ | settleCarry | settleRestore
  | dropReturn | dropErase | dropBack | dropMark => .addition
  | cleanupStart | cleanupEnd | cleanupSeek
  | leadingZero | leadingCheck | leadingErase | leadingKeep => .cleanup
  | halted => .done

theorem phase_entry (p : Phase) : (entry p).phase = p := by
  cases p <;> rfl

theorem phase_of_go (turn : table r s = .go w d t) : t.phase = r.phase := by
  unfold table at turn
  split at turn
  all_goals try split at turn
  all_goals cases turn
  all_goals rfl

theorem rank_le_of_finish (turn : table r s = .finish w q) : r.phase.rank ≤ q.rank := by
  unfold table at turn
  split at turn
  all_goals try split at turn
  all_goals cases turn
  all_goals decide

theorem phase_of_path (path : table.Path n r a t b) : t.phase = r.phase := by
  induction path with
  | nil => rfl
  | cons turn _ _ _ ih => exact ih.trans (phase_of_go turn)

theorem rank_le_of_ends (ends : table.Ends n (entry p) a q b) : p.rank ≤ q.rank := by
  obtain ⟨path, turn, -⟩ := ends
  have last := rank_le_of_finish turn
  rwa [phase_of_path path, phase_entry] at last

end Order

end Procedure

open Procedure

theorem Course.rank_le {k n : Nat} {p q : Phase} {a b : Span} (course : Course k n p a q b) :
    p.rank ≤ q.rank := by
  induction course with
  | nil => exact Nat.le_refl _
  | cons _ ends _ ih => exact Nat.le_trans (rank_le_of_ends ends) ih

inductive Route : List Phase → Nat → Phase → Span → Phase → Span → Prop where
  | nil {p : Phase} {a : Span} : Route [] 0 p a p a
  | cons {phases : List Phase} {moves count : Nat} {p q r : Phase} {a b c : Span} (live : p ≠ .done)
      (ends : table.Ends moves (entry p) a q b) (rest : Route phases count q b r c) :
      Route (q :: phases) (moves + count) p a r c

namespace Route

variable {phases more : List Phase} {m n k : Nat} {p q r : Phase} {a b c : Span}

theorem trans (first : Route phases m p a q b) (second : Route more n q b r c) :
    Route (phases ++ more) (m + n) p a r c := by
  induction first with
  | nil => simpa using second
  | @cons phases moves count p q r a b c live ends _ ih =>
    rw [Nat.add_assoc moves]
    exact .cons live ends (ih second)

theorem single (live : p ≠ .done) (ends : table.Ends n (entry p) a q b) : Route [q] n p a q b :=
  .cons live ends .nil

/-- A course that comes back to the phase it starts in never leaves it. -/
theorem of_loop (course : Course k n p a q b) (back : p = q) :
    Route (List.replicate k q) n p a q b := by
  induction course with
  | nil => exact .nil
  | @cons moves advances count p q r a b c live ends rest ih =>
    subst back
    -- The phase in between is neither an earlier nor a later one.
    obtain rfl : p = q := Phase.rank_inj (Nat.le_antisymm (rank_le_of_ends ends) rest.rank_le)
    exact .cons live ends (ih rfl)

theorem course (route : Route phases n p a q b) : Course phases.length n p a q b := by
  induction route with
  | nil => exact .nil
  | cons live ends _ ih => exact .cons live ends ih

end Route

section Journal

def Event.change : Event → Option ((Phase × Phase) × Nat)
  | moved .. => none
  | phaseChanged before after steps _ => some ((before, after), steps)

namespace Head

variable {h : Head}

def changes (h : Head) : List ((Phase × Phase) × Nat) :=
  h.journal.entries.toList.filterMap Event.change

theorem changes_mark (h : Head) (w : List Symbol) : (h.mark w).changes = h.changes := by
  induction w generalizing h with
  | nil => rfl
  | cons s w ih => exact ih (h.write s)

theorem changes_move (h : Head) (d : Direction) : (h.move d).changes = h.changes := by
  have entries := h.entries_act (.move d)
  rw [changes, show h.move d = h.act (.move d) from rfl, entries, List.filterMap_append, noted]
  split <;> simp [Event.change, changes]

theorem changes_note (h : Head) (p q : Phase) :
    (h.note p q).changes = h.changes ++ if p = q then [] else [((p, q), h.steps)] := by
  have entries := h.entries_act (.change p q)
  rw [changes, show h.note p q = h.act (.change p q) from rfl, entries, List.filterMap_append, noted]
  by_cases same : p = q <;> simp [same, Event.change, changes]

end Head

theorem Control.changes_drive {σ ρ : Type} (control : Control σ ρ) (turns : Nat) (q : σ) (h : Head) :
    (control.drive turns q h).2.changes = h.changes := by
  induction turns generalizing q h with
  | zero => rfl
  | succ turns ih =>
    cases turn : control q h.symbol with
    | finish w result => rw [drive_finish turn, Head.changes_mark]
    | refuse fault => rw [drive_refuse turn]
    | go w d next =>
      cases fuse : ((h.mark w).move d).fuse with
      | some fault => rw [drive_blown turn fuse, Head.changes_move, Head.changes_mark]
      | none => rw [drive_go turn fuse, ih, Head.changes_move, Head.changes_mark]

namespace Machine

variable {m after : Machine} {p q : Phase} {patience count : Nat}

theorem changes_advance (advanced : m.advance patience = (.done q, after)) :
    after.head.changes =
      m.head.changes ++ if m.phase = q then [] else [((m.phase, q), after.steps)] := by
  have before := Control.changes_drive table (m.head.turns patience) (entry m.phase) m.head
  rcases ended : m.driven patience with ⟨r | fault | _, last⟩
  · rw [advance_of_done ended] at advanced
    cases advanced
    rw [driven] at ended
    rw [ended] at before
    rw [Head.changes_note, before]
    rfl
  · rw [advance_of_failed ended] at advanced
    cases advanced
  · rw [advance_of_unfinished ended] at advanced
    cases advanced

theorem changes_stopped (stopped : ∀ q, (m.advance patience).1 ≠ .done q) :
    (m.advance patience).2.head.changes = m.head.changes := by
  have before := Control.changes_drive table (m.head.turns patience) (entry m.phase) m.head
  rcases ended : m.driven patience with ⟨q | fault | _, last⟩
  · rw [advance_of_done ended] at stopped
    exact absurd rfl (stopped q)
  · rw [driven] at ended
    rw [ended] at before
    rw [advance_of_failed ended]
    exact before
  · rw [driven] at ended
    rw [ended] at before
    rw [advance_of_unfinished ended]
    exact before

/-- The changes of phase along a history that starts in `p`, each with the moves made by then. -/
def changesAlong : Phase → List (Outcome Phase × Machine) → List ((Phase × Phase) × Nat)
  | p, (.done q, after) :: rest =>
    (if p = q then [] else [((p, q), after.steps)]) ++ changesAlong q rest
  | _, _ => []

/-- The journal has the changes of the history and no others. -/
theorem changes_advanceUntilDone (m : Machine) (patience count : Nat) :
    (m.advanceUntilDone patience count).2.head.changes =
      m.head.changes ++ changesAlong m.phase (m.historyUpTo patience count) := by
  induction count generalizing m with
  | zero => exact (List.append_nil _).symm
  | succ count ih =>
    by_cases finished : m.phase = .done
    · rw [advanceUntilDone_of_done finished, historyUpTo, if_pos finished]
      exact (List.append_nil _).symm
    · have stopped := @changes_stopped m patience
      rw [historyUpTo, if_neg finished]
      rcases advanced : m.advance patience with ⟨q | fault | _, after⟩ <;>
        simp only [advanced] at stopped
      · rw [advanceUntilDone_of_advance finished advanced, ih after, changes_advance advanced, phase_of_advance advanced, List.append_assoc]
        rfl
      · have still := stopped (by simp)
        rw [advanceUntilDone_of_failed finished advanced, still]
        exact (List.append_nil _).symm
      · have still := stopped (by simp)
        rw [advanceUntilDone_of_unfinished finished advanced, still]
        exact (List.append_nil _).symm

theorem steps_historyUpTo (m : Machine) (patience count : Nat) :
    (m.steps :: (m.historyUpTo patience count).map (·.2.steps)).Pairwise (· ≤ ·) := by
  induction count generalizing m with
  | zero => exact List.pairwise_singleton ..
  | succ count ih =>
    have grown := steps_le_advance m patience
    rw [historyUpTo]
    split
    · exact List.pairwise_singleton ..
    · rcases advanced : m.advance patience with ⟨q | fault | _, after⟩ <;> rw [advanced] at grown
      · have rest := ih after
        refine List.pairwise_cons.mpr ⟨?_, rest⟩
        intro steps member
        rcases List.mem_cons.mp member with rfl | member
        · exact grown
        · exact Nat.le_trans grown ((List.pairwise_cons.mp rest).1 steps member)
      · exact List.pairwise_pair.mpr grown
      · exact List.pairwise_pair.mpr grown

theorem steps_changesAlong (p : Phase) (history : List (Outcome Phase × Machine)) :
    ((changesAlong p history).map Prod.snd).Sublist (history.map (·.2.steps)) := by
  induction history generalizing p with
  | nil => exact .slnil
  | cons answered rest ih =>
    obtain ⟨q | fault | _, after⟩ := answered
    · rw [changesAlong, List.map_append, List.map_cons]
      split
      · exact (ih q).cons _
      · exact (ih q).cons_cons _
    · exact List.nil_sublist _
    · exact List.nil_sublist _

theorem pairs_changesAlong {phases : List Phase} {history : List (Outcome Phase × Machine)}
    (answered : history.map Prod.fst = phases.map .done) (p : Phase) :
    (changesAlong p history).map Prod.fst =
      ((p :: phases).zip phases).filter fun change => change.1 ≠ change.2 := by
  induction phases generalizing p history with
  | nil =>
    obtain rfl := List.map_eq_nil_iff.mp answered
    rfl
  | cons q phases ih =>
    obtain ⟨⟨_, after⟩, rest, rfl, rfl, others⟩ := List.map_eq_cons_iff.mp answered
    have rest := ih others q
    rw [changesAlong, List.map_append, rest, List.zip_cons_cons, List.filter_cons]
    by_cases same : p = q <;> simp [same]

theorem changes_calculate {phases : List Phase}
    (answered : (m.history patience).map Prod.fst = phases.map .done) :
    ∃ noted, (m.calculate patience).2.head.changes = m.head.changes ++ noted ∧
      noted.map Prod.fst =
        ((m.phase :: phases).zip phases).filter (fun change => change.1 ≠ change.2) ∧
      (noted.map Prod.snd).Pairwise (· ≤ ·) := by
  refine ⟨_, changes_advanceUntilDone m patience _, pairs_changesAlong answered m.phase, ?_⟩
  have grown := steps_historyUpTo m patience (m.advances patience)
  exact (List.pairwise_cons.mp grown).2.sublist (steps_changesAlong m.phase _)

theorem historyUpTo_of_route {phases : List Phase} {n : Nat} {a b : Span}
    (route : Route phases n p a .done b) (stands : m.Stands p a) (affords : m.head.Affords patience n)
    (enough : phases.length ≤ count) :
    (m.historyUpTo patience count).map Prod.fst = phases.map .done := by
  generalize finish : Phase.done = r at route
  induction route generalizing m count with
  | nil =>
    subst finish
    cases count with
    | zero => rfl
    | succ count => rw [historyUpTo, if_pos stands.phase]; rfl
  | cons live ends _ ih =>
    obtain ⟨count, rfl⟩ : ∃ less, count = less + 1 := ⟨count - 1, by simp at enough; omega⟩
    obtain ⟨next, advanced, there, reaches⟩ :=
      advance_of_ends stands ends (affords.of_le (Nat.le_add_right ..))
    have rest := ih there (reaches.affords affords) (Nat.le_of_succ_le_succ enough) finish
    rw [historyUpTo, if_neg (stands.phase ▸ live), advanced, List.map_cons, List.map_cons, rest]

theorem history_of_route {phases : List Phase} {n : Nat} {a b : Span}
    (route : Route phases n p a .done b) (stands : m.Stands p a)
    (affords : m.head.Affords patience n) :
    (m.history patience).map Prod.fst = phases.map .done := by
  have turns := affords.turns
  have advances := route.course.advances_le
  apply historyUpTo_of_route route stands affords
  rw [Machine.advances]
  split at advances <;> omega

end Machine

end Journal

section Inputs

open Layout Numeral

variable {first second : List Bool}

/-- The phases that the advances of a multiplication answer. Each digit of the first factor takes
another advance in `dispatch`, and every one among them another one in `addition`. -/
def runPhases (first : List Bool) : List Phase :=
  if first = [false] then [.done]
  else
    [.endMark, .digitScan] ++ List.replicate (first.length + 1) .dispatch ++
      [.placeValue, .inputRemoval] ++
      if first.count true = 0 then [.done]
      else List.replicate (first.count true) .addition ++ [.cleanup, .done]

theorem length_runPhases (first : List Bool) : (runPhases first).length =
    if first = [false] then 1
    else if first.count true = 0 then first.length + 6
    else first.length + first.count true + 7 := by
  unfold runPhases
  split
  · rfl
  · split
    · simp
    · simp
      omega

theorem digits_route (nonempty : first ≠ []) (wide : second ≠ []) (longer : first ≠ [false]) :
    ∃ moves, Route ([.endMark, .digitScan] ++ List.replicate (first.length + 1) .dispatch ++
        [.placeValue, .inputRemoval]) moves .zeroCheck (atStart first second)
      .inputRemoval (atRightEnd first.length second (places first)) := by
  obtain ⟨check_moves, -, checked⟩ := @zeroCheck_nonzero first second nonempty longer
  obtain ⟨digit_moves, -, digits⟩ := dispatch_course wide [] first
  rw [List.nil_append] at digits
  have check : Route [.endMark] _ .zeroCheck (atStart first second)
      .endMark (atStart first second) := .single (by decide) checked
  have mark : Route [.digitScan] _ .endMark (atStart first second)
      .digitScan (atEndMark first second) := .single (by decide) endMark_ends
  have scan : Route [.dispatch] _ .digitScan (atEndMark first second)
      .dispatch (atDelimiter first 0 second []) := .single (by decide) digitScan_ends
  have leave : Route [.placeValue] _ .dispatch (atDelimiter [] first.length second (places first))
      .placeValue (atLeftEnd first.length second (places first)) :=
    .single (by decide) dispatch_nil
  have fill : Route [.inputRemoval] _ .placeValue (atLeftEnd first.length second (places first))
      .inputRemoval (atRightEnd first.length second (places first)) :=
    .single (by decide) placeValue_ends
  have route := check.trans
    (mark.trans (scan.trans ((Route.of_loop digits rfl).trans (leave.trans fill))))
  rw [List.replicate_succ, List.append_assoc]
  exact ⟨_, route⟩

theorem terms_route (wide : second ≠ []) (places_ne : places first ≠ []) :
    ∃ moves product, Route (List.replicate (places first).length .addition ++ [.cleanup, .done]) moves
      .inputRemoval (atRightEnd first.length second (places first)) .done product := by
  obtain ⟨place, rest, same⟩ := List.exists_cons_of_ne_nil places_ne
  rw [same]
  have removal : Route [.addition] _ .inputRemoval (atRightEnd first.length second (place :: rest))
      .addition (atShift (shifted second place) (summands second rest)) :=
    .single (by decide) (inputRemoval_cons place)
  obtain ⟨moves, -, sum, passes, -, lengths⟩ := @sums_course first second place rest same _ le_rfl
  rw [List.drop_length] at passes
  have check : Route [.cleanup] _ .addition (atShift sum []) .cleanup (atProduct sum) :=
    .single (by decide) addition_last
  have filled : sum ≠ [] := by
    obtain ⟨last, there⟩ : ∃ last, (place :: rest)[rest.length]? = some last :=
      ⟨_, List.getElem?_eq_getElem (by simp)⟩
    have length := lengths last there
    have second_pos := List.length_pos_of_ne_nil wide
    exact List.ne_nil_of_length_pos (by omega)
  obtain ⟨clean_moves, -, clean⟩ := cleanup_ends filled
  have route := removal.trans
    ((Route.of_loop passes rfl).trans (check.trans (.single (by decide) clean)))
  exact ⟨_, _, route⟩

theorem product_route (nonempty : first ≠ []) (wide : second ≠ []) :
    ∃ moves product, Route (runPhases first) moves .zeroCheck (atStart first second)
      .done product := by
  rw [runPhases, ← length_places]
  split
  · next zero =>
    subst zero
    have check : Route [.done] _ .zeroCheck (atStart [false] second) .done ⟨[], [.zero]⟩ :=
      .single (by decide) zeroCheck_zero
    exact ⟨_, _, check⟩
  · next longer =>
    obtain ⟨digit_moves, digits⟩ := digits_route nonempty wide longer
    split
    · next none =>
      rw [List.length_eq_zero_iff] at none
      rw [none] at digits
      have removal : Route [.done] _ .inputRemoval (atRightEnd first.length second [])
          .done ⟨[], [.zero]⟩ := .single (by decide) inputRemoval_nil
      exact ⟨_, _, digits.trans removal⟩
    · next some =>
      obtain ⟨term_moves, product, terms⟩ :=
        terms_route wide (List.ne_nil_of_length_pos (Nat.pos_of_ne_zero some))
      exact ⟨_, _, digits.trans terms⟩

namespace Machine

/-- Between its first and its last advance a run answers the phases that the digits of the first
factor ask for, and its journal notes the changes among them as they come. -/
theorem history_phases (nonempty : first ≠ []) (nonempty' : second ≠ []) :
    ∃ moves, ∀ config : Config, Symbol.isReserved config.separator = false →
      ∀ patience, config.Allows patience moves → ∃ fresh after,
        ofInput (inputText first second config.separator) config = .ok fresh ∧
          fresh.calculate patience = (.done (), after) ∧ after.steps = moves ∧
          (fresh.history patience).map Prod.fst = (runPhases first).map .done ∧
          (fresh.history patience).length =
            (if first = [false] then 1
              else if first.count true = 0 then first.length + 6
              else first.length + first.count true + 7) ∧
          after.head.changes.map Prod.fst =
            ((.zeroCheck :: runPhases first).zip (runPhases first)).filter
              (fun change => change.1 ≠ change.2) ∧
          (after.head.changes.map Prod.snd).Pairwise (· ≤ ·) := by
  obtain ⟨moves, product, route⟩ := product_route nonempty nonempty'
  refine ⟨moves, ?_⟩
  intro config free patience allows
  obtain ⟨fresh, built, stands, steps, stepLimit, -⟩ := ofInput_inputText nonempty nonempty' free
  have affords := allows.affords le_rfl steps stepLimit
  have answered := history_of_route route stands affords
  obtain ⟨after, calculated, -, reaches⟩ := calculate_of_course route.course stands affords
  refine ⟨fresh, after, built, calculated, ?_, answered, ?_, ?_⟩
  · rw [Machine.steps, reaches.steps, steps, Nat.zero_add]
  · have lengths := congrArg List.length answered
    rw [List.length_map, List.length_map, length_runPhases] at lengths
    exact lengths
  · obtain ⟨-, -, tape, -, rfl⟩ := ofInput_eq_ok_iff.mp built
    obtain ⟨noted, journal, pairs, grown⟩ := changes_calculate answered
    rw [calculated] at journal
    obtain rfl : after.head.changes = noted := journal
    exact ⟨pairs, grown⟩

theorem history_phases_three_times_two : ∃ patience fresh after,
    ofInput "11x10" { stepLimit := none } = .ok fresh ∧
      fresh.calculate patience = (.done (), after) ∧
      (fresh.history patience).map Prod.fst = [Phase.endMark, .digitScan, .dispatch, .dispatch,
        .dispatch, .placeValue, .inputRemoval, .addition, .addition, .cleanup, .done].map .done ∧
      after.head.changes.map Prod.fst = [(.zeroCheck, .endMark), (.endMark, .digitScan),
        (.digitScan, .dispatch), (.dispatch, .placeValue), (.placeValue, .inputRemoval),
        (.inputRemoval, .addition), (.addition, .cleanup), (.cleanup, .done)] := by
  obtain ⟨moves, run⟩ := @history_phases [true, true] [true, false] (by decide) (by decide)
  obtain ⟨fresh, after, built, calculated, -, answered, -, changes, -⟩ :=
    run { stepLimit := none } (by decide) (moves + 1) (Nat.lt_succ_self moves)
  exact ⟨moves + 1, fresh, after, built, calculated, answered, changes⟩

end Machine

end Inputs

end TuringMultiplier
