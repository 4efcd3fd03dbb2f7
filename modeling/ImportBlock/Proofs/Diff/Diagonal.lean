import ImportBlock.Proofs.Diff.Hunk
import Mathlib

/-! Aligning a text with itself. In each row of the search the diagonal holds the longest runs, and it is
met before any other run of the same length. So the run that is kept lies on the diagonal, and it grows to
the whole text, whatever lines are too frequent to be looked for. -/

namespace ImportBlock.Diff

/-! ## The index -/

def occurrences (text : List Line) (line : Line) : List Nat :=
  (text.zipIdx.filter fun entry => entry.1 == line).map (·.2)

theorem mem_occurrences {text : List Line} {line : Line} {place : Nat} :
    place ∈ occurrences text line ↔ text[place]? = some line := by
  simp [occurrences, List.mem_zipIdx_iff_getElem?]

theorem pairwise_occurrences (text : List Line) (line : Line) :
    (occurrences text line).Pairwise (· < ·) := by
  have places : text.zipIdx.Pairwise fun left right => left.2 < right.2 := by
    rw [← List.pairwise_map, List.zipIdx_map_snd]
    exact List.pairwise_lt_range'
  exact List.pairwise_map.mpr (places.filter _)

theorem getD_foldr_insert (entries : List (Line × Nat)) (line : Line) :
    (entries.foldr (fun entry (places : Std.HashMap Line (List Nat)) =>
      places.insert entry.1 (entry.2 :: places.getD entry.1 [])) ∅).getD line [] =
        (entries.filter fun entry => entry.1 == line).map (·.2) := by
  induction entries with
  | nil => simp
  | cons entry rest induction =>
      rw [List.foldr_cons, Std.HashMap.getD_insert, List.filter_cons]
      by_cases equal : entry.1 = line
      · rw [if_pos (beq_iff_eq.mpr equal), if_pos (beq_iff_eq.mpr equal), equal, induction,
          List.map_cons]
      · rw [if_neg (by simpa using equal), if_neg (by simpa using equal), induction]

theorem getD_filter (places : Std.HashMap Line (List Nat)) (keep : List Nat → Bool) (line : Line) :
    (places.filter fun _ found => keep found).getD line [] = places.getD line [] ∨
      (places.filter fun _ found => keep found).getD line [] = [] := by
  rw [Std.HashMap.getD_filter, Std.HashMap.getD_eq_getD_getElem?]
  cases places[line]? with
  | none => exact .inl rfl
  | some found =>
      cases kept : keep found with
      | true => exact .inl (by simp [Option.filter, kept])
      | false => exact .inr (by simp [Option.filter, kept])

theorem getD_index (text : List Line) (line : Line) :
    (index text).getD line [] = occurrences text line ∨ (index text).getD line [] = [] := by
  rw [occurrences, ← getD_foldr_insert]
  unfold index
  split_ifs
  · exact .inl rfl
  · exact getD_filter _ (fun found => found.length ≤ text.length / 100 + 1) line

/-- What is known of the places of lines that are looked for in their own text: they increase, a line that
has places has its own, and the same line stands at each of them. -/
def IsOwn (sought : List Sought) : Prop :=
  ∀ (row : Nat) (entry : Sought), sought[row]? = some entry → entry.places.Pairwise (· < ·) ∧
    (entry.places ≠ [] → row ∈ entry.places) ∧ ∀ place ∈ entry.places, sought[place]? = some entry

theorem isOwn_seek (text : List Line) : IsOwn (seek text text) := by
  intro row entry found
  rw [seek, List.getElem?_map, Option.map_eq_some_iff] at found
  rcases found with ⟨line, stands, rfl⟩
  have others : ∀ place ∈ occurrences text line,
      (seek text text)[place]? = some ⟨line, (index text).getD line []⟩ := by
    intro place member
    rw [seek, List.getElem?_map, mem_occurrences.mp member]
    rfl
  rcases getD_index text line with all | none
  · refine ⟨?_, ?_, ?_⟩
    · exact all ▸ pairwise_occurrences text line
    · intro _
      exact all ▸ mem_occurrences.mpr stands
    · intro place member
      exact others place (all ▸ member)
  · rw [none]
    refine ⟨List.Pairwise.nil, fun present => absurd rfl present, ?_⟩
    intro place member
    cases member

/-! ## The runs of a row -/

/-- The length of the run that stops at a place, zero if there is none. -/
def lengthAt (runs : List (Nat × Nat)) (place : Nat) : Nat :=
  ((runs.find? fun run => run.1 == place).map (·.2)).getD 0

theorem lengthAt_cons (run : Nat × Nat) (rest : List (Nat × Nat)) (place : Nat) :
    lengthAt (run :: rest) place = if run.1 = place then run.2 else lengthAt rest place := by
  rw [lengthAt, List.find?_cons]
  by_cases stops : run.1 = place
  · simp [stops]
  · rw [if_neg stops, beq_eq_false_iff_ne.mpr stops]
    rfl

theorem lengthAt_eq_zero {runs : List (Nat × Nat)} {place : Nat}
    (elsewhere : ∀ run ∈ runs, run.1 ≠ place) : lengthAt runs place = 0 := by
  have none : runs.find? (fun run => run.1 == place) = none := by
    rw [List.find?_eq_none]
    intro run member
    simpa using elsewhere run member
  rw [lengthAt, none]
  rfl

theorem lengthAt_dropWhile (runs : List (Nat × Nat)) {limit place : Nat} (behind : limit ≤ place) :
    lengthAt (runs.dropWhile fun run => run.1 < limit) place = lengthAt runs place := by
  induction runs with
  | nil => rfl
  | cons run rest induction =>
      rw [List.dropWhile_cons]
      split
      · next before =>
          rw [decide_eq_true_eq] at before
          rw [induction, lengthAt_cons, if_neg (by omega)]
      · rfl

theorem lengthAt_of_head {first : Nat × Nat} {others : List (Nat × Nat)} {place : Nat}
    (sorted : (first :: others).Pairwise fun left right => left.1 < right.1)
    (reaches : place ≤ first.1) :
    lengthAt (first :: others) place = if first.1 = place then first.2 else 0 := by
  rw [lengthAt_cons]
  by_cases stops : first.1 = place
  · rw [if_pos stops, if_pos stops]
  · rw [if_neg stops, if_neg stops]
    apply lengthAt_eq_zero
    intro run member
    have behind := (List.pairwise_cons.mp sorted).1 run member
    omega

/-- The runs of a row go on with those of the row before. -/
theorem runsEndingAt_eq_map {previous : List (Nat × Nat)} {places : List Nat}
    (sorted : previous.Pairwise fun left right => left.1 < right.1)
    (increasing : places.Pairwise (· < ·)) : runsEndingAt previous places =
      places.map fun place => (place + 1, lengthAt previous place + 1) := by
  induction places generalizing previous with
  | nil => rfl
  | cons place rest induction =>
      have parts := List.pairwise_cons.mp increasing
      have sortedNear := sorted.sublist (List.dropWhile_sublist fun run => run.1 < place)
      have here := lengthAt_dropWhile previous (Nat.le_refl place)
      have later : (rest.map fun behind => (behind + 1, lengthAt previous behind + 1)) =
          runsEndingAt (previous.dropWhile fun run => run.1 < place) rest := by
        rw [induction sortedNear parts.2]
        apply List.map_congr_left
        intro behind member
        rw [lengthAt_dropWhile previous (Nat.le_of_lt (parts.1 behind member))]
      rw [runsEndingAt, List.map_cons, later, ← here]
      congr 3
      cases equal : previous.dropWhile fun run => run.1 < place with
      | nil => rfl
      | cons first others =>
          rw [equal] at sortedNear
          have reaches : place ≤ first.1 := by
            have kept := List.head?_dropWhile_not (fun run => decide (run.1 < place)) previous
            rw [equal] at kept
            simpa using kept
          rw [lengthAt_of_head sortedNear reaches]

theorem lengthAt_map_succ (length : Nat → Nat) {places : List Nat} {place : Nat}
    (member : place ∈ places) :
    lengthAt (places.map fun place => (place + 1, length place)) (place + 1) = length place := by
  induction places with
  | nil => cases member
  | cons first rest induction =>
      rw [List.map_cons, lengthAt_cons]
      by_cases equal : first = place
      · rw [equal, if_pos rfl]
      · rw [if_neg (by omega)]
        exact induction (List.mem_of_ne_of_mem (Ne.symm equal) member)

theorem lengthAt_map_cases (length : Nat → Nat) (places : List Nat) (stop : Nat) :
    lengthAt (places.map fun place => (place + 1, length place)) stop = 0 ∨
      ∃ place ∈ places, stop = place + 1 ∧
        lengthAt (places.map fun place => (place + 1, length place)) stop = length place := by
  by_cases present : ∃ place ∈ places, stop = place + 1
  · rcases present with ⟨place, member, rfl⟩
    exact .inr ⟨place, member, rfl, lengthAt_map_succ length member⟩
  · left
    apply lengthAt_eq_zero
    intro run member stops
    rcases List.mem_map.mp member with ⟨place, inside, rfl⟩
    exact present ⟨place, inside, stops.symm⟩

/-! ## The search -/

/-- How many lines directly in front of a place have places. -/
def tellingBefore (sought : List Sought) (place : Nat) : Nat :=
  ((sought.take place).reverse.takeWhile fun entry => entry.places ≠ []).length

theorem tellingBefore_succ {sought : List Sought} {row : Nat} {entry : Sought}
    (found : sought[row]? = some entry) : tellingBefore sought (row + 1) =
      if entry.places = [] then 0 else tellingBefore sought row + 1 := by
  rw [tellingBefore, List.take_add_one, found, Option.toList_some, List.reverse_append,
    List.reverse_singleton, List.singleton_append, List.takeWhile_cons]
  by_cases none : entry.places = []
  · simp [none]
  · simp [none, tellingBefore]

/-- What holds in front of a row of the search: no run is longer than the lines in front of either of its
ends allow, the run on the diagonal is as long as they allow, and the best run lies on the diagonal. -/
structure IsDiagonal (sought : List Sought) (row : Nat) (previous : List (Nat × Nat)) (best : Run) :
    Prop where
  sorted : previous.Pairwise fun left right => left.1 < right.1
  le_row : ∀ place, lengthAt previous place ≤ tellingBefore sought row
  le_place : ∀ place, lengthAt previous place ≤ tellingBefore sought place
  diagonal : lengthAt previous row = tellingBefore sought row
  starts : best.oldStart = best.newStart
  within : best.oldStart ≤ row
  longest : ∀ place ≤ row, tellingBefore sought place ≤ best.length

theorem isDiagonal_start (sought : List Sought) : IsDiagonal sought 0 [] ⟨0, 0, 0⟩ where
  sorted := .nil
  le_row _ := Nat.le_refl 0
  le_place _ := Nat.zero_le _
  diagonal := rfl
  starts := rfl
  within := Nat.le_refl 0
  longest place before := by
    rw [Nat.le_zero.mp before]
    exact Nat.le_refl 0

theorem bestOfRow_cons (row : Nat) (best : Run) (run : Nat × Nat) (rest : List (Nat × Nat)) :
    bestOfRow row best (run :: rest) =
      bestOfRow row (if best.length < run.2 then ⟨row + 1 - run.2, run.1 - run.2, run.2⟩ else best)
        rest := rfl

theorem bestOfRow_append (row : Nat) (best : Run) (front back : List (Nat × Nat)) :
    bestOfRow row best (front ++ back) = bestOfRow row (bestOfRow row best front) back :=
  List.foldl_append

theorem bestOfRow_eq_self {row : Nat} {best : Run} {runs : List (Nat × Nat)}
    (short : ∀ run ∈ runs, run.2 ≤ best.length) : bestOfRow row best runs = best := by
  induction runs with
  | nil => rfl
  | cons run rest induction =>
      have parts := List.forall_mem_cons.mp short
      rw [bestOfRow_cons, if_neg (Nat.not_lt.mpr parts.1)]
      exact induction parts.2

namespace IsDiagonal

variable {sought : List Sought} {row : Nat} {previous : List (Nat × Nat)} {best : Run} {entry : Sought}

/-- In a row that has a run on the diagonal, no other run can become the best one. -/
theorem bestOfRow_eq (own : IsOwn sought) (isDiagonal : IsDiagonal sought row previous best)
    (found : sought[row]? = some entry) (telling : entry.places ≠ []) :
    bestOfRow row best (runsEndingAt previous entry.places) =
      if best.length < tellingBefore sought (row + 1) then
        ⟨row + 1 - tellingBefore sought (row + 1), row + 1 - tellingBefore sought (row + 1),
          tellingBefore sought (row + 1)⟩
      else best := by
  rcases own row entry found with ⟨increasing, itself, same⟩
  have length := tellingBefore_succ found
  rw [if_neg telling] at length
  rw [runsEndingAt_eq_map isDiagonal.sorted increasing]
  rcases List.append_of_mem (itself telling) with ⟨front, back, split⟩
  rw [split] at increasing same ⊢
  have early : bestOfRow row best
      (front.map fun place => (place + 1, lengthAt previous place + 1)) = best := by
    apply bestOfRow_eq_self
    intro run member
    rcases List.mem_map.mp member with ⟨place, inside, rfl⟩
    have before : place < row :=
      (List.pairwise_append.mp increasing).2.2 place inside row List.mem_cons_self
    have there := tellingBefore_succ (same place (List.mem_append_left _ inside))
    rw [if_neg telling] at there
    have bound := isDiagonal.le_place place
    have longest := isDiagonal.longest (place + 1) (by omega)
    omega
  rw [List.map_append, bestOfRow_append, early, List.map_cons, bestOfRow_cons, isDiagonal.diagonal,
    ← length]
  apply bestOfRow_eq_self
  intro run member
  rcases List.mem_map.mp member with ⟨place, _, rfl⟩
  have bound := isDiagonal.le_row place
  split
  · dsimp only
    omega
  · dsimp only at *
    omega

theorem step (own : IsOwn sought) (isDiagonal : IsDiagonal sought row previous best)
    (found : sought[row]? = some entry) :
    IsDiagonal sought (row + 1) (runsEndingAt previous entry.places)
      (bestOfRow row best (runsEndingAt previous entry.places)) := by
  rcases own row entry found with ⟨increasing, itself, same⟩
  have length := tellingBefore_succ found
  by_cases none : entry.places = []
  · rw [if_pos none] at length
    rw [none]
    refine ⟨.nil, fun _ => Nat.zero_le _, fun _ => Nat.zero_le _, length.symm, isDiagonal.starts,
      Nat.le_succ_of_le isDiagonal.within, ?_⟩
    intro place before
    by_cases earlier : place ≤ row
    · exact isDiagonal.longest place earlier
    · obtain rfl : place = row + 1 := by omega
      rw [length]
      exact Nat.zero_le _
  · rw [if_neg none] at length
    rw [isDiagonal.bestOfRow_eq own found none, runsEndingAt_eq_map isDiagonal.sorted increasing]
    have lengths := lengthAt_map_cases (fun place => lengthAt previous place + 1) entry.places
    constructor
    case sorted => exact List.pairwise_map.mpr (increasing.imp fun less => Nat.succ_lt_succ less)
    case le_row =>
      intro stop
      rcases lengths stop with zero | ⟨place, _, _, equal⟩
      · omega
      · have bound := isDiagonal.le_row place
        omega
    case le_place =>
      intro stop
      rcases lengths stop with zero | ⟨place, member, rfl, equal⟩
      · omega
      · have there := tellingBefore_succ (same place member)
        rw [if_neg none] at there
        have bound := isDiagonal.le_place place
        omega
    case diagonal => rw [lengthAt_map_succ _ (itself none), isDiagonal.diagonal, length]
    case starts =>
      split
      · rfl
      · exact isDiagonal.starts
    case within =>
      split
      · exact Nat.sub_le _ _
      · exact Nat.le_succ_of_le isDiagonal.within
    case longest =>
      intro place before
      by_cases earlier : place ≤ row
      · have bound := isDiagonal.longest place earlier
        split
        · exact Nat.le_of_lt (Nat.lt_of_le_of_lt bound ‹_›)
        · exact bound
      · obtain rfl : place = row + 1 := by omega
        split
        · exact Nat.le_refl _
        · next shorter => exact Nat.not_lt.mp shorter

theorem longestRunFrom_eq (own : IsOwn sought) {rest : List Sought}
    (isDiagonal : IsDiagonal sought row previous best) (inside : row ≤ sought.length)
    (remaining : sought.drop row = rest) :
    ∃ place ≤ sought.length, ∃ length,
      longestRunFrom 0 sought.length row previous best rest = ⟨place, place, length⟩ := by
  induction rest generalizing row previous best with
  | nil =>
      refine ⟨best.oldStart, Nat.le_trans isDiagonal.within inside, best.length, ?_⟩
      rw [longestRunFrom]
      exact congrArg (Run.mk best.oldStart · best.length) isDiagonal.starts.symm
  | cons entry rest induction =>
      have found : sought[row]? = some entry := by
        rw [← List.head?_drop, remaining]
        rfl
      have within : (entry.places.dropWhile (· < 0)).takeWhile (· < sought.length) = entry.places := by
        have stands := (own row entry found).2.2
        have low : entry.places.dropWhile (· < 0) = entry.places := by
          cases entry.places <;> simp
        rw [low, List.takeWhile_eq_self_iff]
        intro place member
        exact decide_eq_true (List.getElem?_eq_some_iff.mp (stands place member)).1
      rw [longestRunFrom, within]
      apply induction (isDiagonal.step own found)
      · exact (List.getElem?_eq_some_iff.mp found).1
      · rw [← List.drop_drop, remaining]
        rfl

end IsDiagonal

/-! ## Equal texts -/

theorem commonPrefix_self (lines : List Line) : commonPrefix lines lines = lines := by
  induction lines with
  | nil => rfl
  | cons line rest induction => rw [commonPrefix, if_pos rfl, induction]

theorem longestRun_self (text : List Line) :
    ∃ length, longestRun 0 (seek text text) text = ⟨0, 0, length⟩ := by
  have size : (seek text text).length = text.length := List.length_map ..
  rcases (isDiagonal_start (seek text text)).longestRunFrom_eq (isOwn_seek text) (Nat.zero_le _) rfl with
    ⟨place, inside, length, equal⟩
  rw [size] at inside equal
  rw [List.drop_zero] at equal
  have front : linesOf ((seek text text).take place) = text.take place := by
    rw [linesOf, List.map_take, ← linesOf, linesOf_seek]
  have before : (text.take place).reverse.length = place := by
    rw [List.length_reverse, List.length_take_of_le inside]
  refine ⟨length + place, ?_⟩
  simp only [longestRun, Nat.zero_add, Nat.sub_zero, equal, front, commonPrefix_self, before,
    Nat.sub_self]

theorem align_nil (start : Nat) : align start [] [] = [.changed [] []] := by
  rw [align]
  split
  · rfl
  · next equal =>
      rw [List.drop_nil, commonPrefix] at equal
      cases equal
      intros
      contradiction

theorem pieces_self (text : List Line) :
    pieces text text = if text = [] then [] else [.kept text] := by
  rcases longestRun_self text with ⟨length, run⟩
  have common : commonPrefix ((linesOf (seek text text)).drop (longestRun 0 (seek text text) text).oldStart)
      (text.drop (longestRun 0 (seek text text) text).newStart) = text := by
    rw [run, linesOf_seek, List.drop_zero, commonPrefix_self]
  have behind : (seek text text).drop text.length = [] :=
    List.drop_eq_nil_of_le (List.length_map ..).le
  rw [pieces, align]
  split
  · next equal =>
      rw [common] at equal
      rw [if_pos equal, equal]
      rfl
  · next line rest equal =>
      rw [common] at equal
      rw [← equal, run]
      simp only [List.take_zero, Nat.zero_add, behind, List.drop_length, align_nil]
      rw [if_neg (equal ▸ List.cons_ne_nil line rest)]
      rfl

/-! ## Hunks of equal texts -/

namespace Located

@[simp]
theorem isChange_first (count : Nat) (located : Located) :
    (located.first count).piece.isChange = located.piece.isChange := by
  rcases located with ⟨_, _, _ | _⟩ <;> rfl

@[simp]
theorem isChange_last (count : Nat) (located : Located) :
    (located.last count).piece.isChange = located.piece.isChange := by
  rcases located with ⟨_, _, _ | _⟩ <;> rfl

end Located

theorem hunks_kept (context : Nat) (lines : List Line) : hunks context [.kept lines] = [] := by
  let trimmed : Located := (Located.mk 0 0 (.kept lines)).last context |>.first context
  have equal : trim context (locate 0 0 [.kept lines]) = [trimmed] := rfl
  have unchanged : trimmed.piece.isChange = false := by
    rw [Located.isChange_first, Located.isChange_last]
    rfl
  rw [hunks, equal, collect]
  split
  · simp [collect, unchanged]
  · simp [collect, unchanged]

theorem hunks_eq_nil_iff {context : Nat} {old new : List Line} :
    hunks context (pieces old new) = [] ↔ old = new := by
  constructor
  · intro none
    have turns := turns_hunks context (pieces old new)
    rw [none, flatMap_old_pieces, flatMap_new_pieces] at turns
    cases turns
    rfl
  · rintro rfl
    rw [pieces_self]
    split
    · rfl
    · exact hunks_kept context old

end ImportBlock.Diff
