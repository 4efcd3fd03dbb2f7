import ImportBlock.Proofs.Diff.Hunk
import ImportBlock.Proofs.Diff.Record
import Mathlib

/-! Unified diffs as they are read: hunk by hunk, with line feeds as the only ends of lines. Read in
this way, the diff of two texts turns the one into the other, if none of the lines that it reaches ends
in another way. -/

namespace ImportBlock.Diff

namespace Patch

/-! ## Reading -/

/-- Lines of a text: how many stand before them, and how many they are. -/
structure Stretch where
  before : Nat
  length : Nat
deriving DecidableEq, Repr

/-- Lines are counted from one. No lines have the number of the line before them. -/
def Stretch.ofNumbers : (start length : Nat) → Option Stretch
  | start, 0 => some ⟨start, 0⟩
  | 0, _ + 1 => none
  | before + 1, length + 1 => some ⟨before, length + 1⟩

def readNumber (digits : List Char) : Option Nat :=
  if digits ≠ [] ∧ digits.all Char.isDigit then some (Nat.ofDigitChars 10 digits 0) else none

def readStretch (text : List Char) : Option Stretch :=
  match text.splitOn ',' with
  | [start] => (readNumber start).bind fun start => Stretch.ofNumbers start 1
  | [start, length] =>
      (readNumber start).bind fun start => (readNumber length).bind (Stretch.ofNumbers start)
  | _ => none

/-- The header of a hunk: where its lines stand in the old text and in the new one. -/
def readHeader (record : Line) : Option (Stretch × Stretch) :=
  match record.splitOn ' ' with
  | [['@', '@'], '-' :: old, '+' :: new, ['@', '@', '\n']] =>
      (readStretch old).bind fun old => (readStretch new).map fun new => (old, new)
  | _ => none

/-- Where the reader of a diff stands: behind how many lines of the old text and of the new one, how
many lines the hunk still has of each, and which lines of the old text remain. -/
structure State where
  oldPlace : Nat
  newPlace : Nat
  oldLeft : Nat
  newLeft : Nat
  remaining : List Line

/-- A hunk begins further on, where both texts are equally far behind the last one. The lines up to
there stay. -/
def openHunk (oldPlace newPlace : Nat) (remaining : List Line) (old new : Stretch) :
    Option (List Line × State) :=
  let skipped := old.before - oldPlace
  if oldPlace ≤ old.before ∧ skipped ≤ remaining.length ∧ new.before = newPlace + skipped then
    some (remaining.take skipped,
      ⟨old.before, new.before, old.length, new.length, remaining.drop skipped⟩)
  else none

/-- Takes a record of a diff. Answers with the lines that this adds to the new text. -/
def step : State → Line → Option (List Line × State)
  | ⟨oldPlace, newPlace, 0, 0, remaining⟩, record =>
      (readHeader record).bind fun (old, new) => openHunk oldPlace newPlace remaining old new
  | ⟨oldPlace, newPlace, oldLeft + 1, newLeft + 1, line :: remaining⟩, ' ' :: same =>
      if line = same then
        some ([line], ⟨oldPlace + 1, newPlace + 1, oldLeft, newLeft, remaining⟩)
      else none
  | ⟨oldPlace, newPlace, oldLeft + 1, newLeft, line :: remaining⟩, '-' :: same =>
      if line = same then some ([], ⟨oldPlace + 1, newPlace, oldLeft, newLeft, remaining⟩) else none
  | ⟨oldPlace, newPlace, oldLeft, newLeft + 1, remaining⟩, '+' :: line =>
      some ([line], ⟨oldPlace, newPlace + 1, oldLeft, newLeft, remaining⟩)
  | _, _ => none

/-- Takes all records of a diff. The last hunk must be complete, and the lines behind it stay. -/
def follow (state : State) : List Line → Option (List Line)
  | [] => if state.oldLeft = 0 ∧ state.newLeft = 0 then some state.remaining else none
  | record :: rest =>
      (step state record).bind fun (written, next) => (follow next rest).map (written ++ ·)

/-- What a text becomes by a diff: the text itself if the diff is empty. -/
def apply (diff text : List Char) : Option (List Char) :=
  match Text.records diff with
  | [] => some text
  | old :: new :: hunks =>
      if "--- ".toList.isPrefixOf old ∧ "+++ ".toList.isPrefixOf new then
        (follow ⟨0, 0, 0, 0, Text.records text⟩ hunks).map List.flatten
      else none
  | [_] => none

/-! ## Numbers and headers -/

theorem readNumber_toString (number : Nat) :
    readNumber (toString number).toList = some number := by
  rw [Nat.toString_eq_ofList_toDigits, String.toList_ofList, readNumber, if_pos,
    Nat.ofDigitChars_ten_toDigits]
  refine ⟨Nat.toDigits_ne_nil, List.all_eq_true.mpr ?_⟩
  intro c member
  exact Nat.isDigit_of_mem_toDigits (by decide) (by decide) member

theorem isDigit_of_mem_toString {number : Nat} {c : Char} (member : c ∈ (toString number).toList) :
    c.isDigit = true := by
  rw [Nat.toString_eq_ofList_toDigits, String.toList_ofList] at member
  exact Nat.isDigit_of_mem_toDigits (by decide) (by decide) member

theorem isDigit_or_comma_of_mem_range {start stop : Nat} {c : Char}
    (member : c ∈ (range start stop).toList) : c.isDigit = true ∨ c = ',' := by
  unfold range at member
  dsimp only at member
  split at member
  · exact .inl (isDigit_of_mem_toString member)
  · simp only [String.toList_append, List.mem_append] at member
    rcases member with (first | comma) | second
    · exact .inl (isDigit_of_mem_toString first)
    · exact .inr (List.mem_singleton.mp comma)
    · exact .inl (isDigit_of_mem_toString second)

theorem readStretch_range (start stop : Nat) :
    readStretch (range start stop).toList = some ⟨start, stop - start⟩ := by
  have apart : ∀ number : Nat, ',' ∉ (toString number).toList := by
    intro number member
    have digit := isDigit_of_mem_toString member
    revert digit
    decide
  rw [range]
  generalize stop - start = length
  by_cases one : length = 1
  · rw [if_pos one, readStretch, List.splitOn_eq_singleton (apart _)]
    simp only [readNumber_toString, Option.bind_some, one]
    rfl
  · have split : ∀ first : Nat, (toString first ++ "," ++ toString length).toList.splitOn ',' =
        [(toString first).toList, (toString length).toList] := by
      intro first
      have joined : (toString first ++ "," ++ toString length).toList =
          (toString first).toList ++ ',' :: (toString length).toList := by
        simp [String.toList_append]
      rw [joined, List.splitOn_append_cons_self_of_not_mem (apart _),
        List.splitOn_eq_singleton (apart _)]
    rw [if_neg one, readStretch, split]
    simp only [readNumber_toString, Option.bind_some]
    cases length <;> rfl

theorem not_mem_range {start stop : Nat} {c : Char} (other : c.isDigit = false ∧ c ≠ ',') :
    c ∉ (range start stop).toList := by
  intro member
  rcases isDigit_or_comma_of_mem_range member with digit | comma
  · rw [other.1] at digit
    cases digit
  · exact other.2 comma

def header (oldStart oldStop newStart newStop : Nat) : Line :=
  ("@@ -" ++ range oldStart oldStop ++ " +" ++ range newStart newStop ++ " @@\n").toList

theorem readHeader_header (oldStart oldStop newStart newStop : Nat) :
    readHeader (header oldStart oldStop newStart newStop) =
      some (⟨oldStart, oldStop - oldStart⟩, ⟨newStart, newStop - newStart⟩) := by
  have joined : header oldStart oldStop newStart newStop = ['@', '@'] ++ ' ' ::
      ('-' :: (range oldStart oldStop).toList ++ ' ' ::
        ('+' :: (range newStart newStop).toList ++ ' ' :: ['@', '@', '\n'])) := by
    simp [header, String.toList_append]
  have apart : ∀ (mark : Char) (start stop : Nat), mark ≠ ' ' →
      ' ' ∉ mark :: (range start stop).toList := by
    intro mark start stop different
    exact List.not_mem_cons_of_ne_of_not_mem different.symm (not_mem_range (by decide))
  rw [readHeader, joined, List.splitOn_append_cons_self_of_not_mem (by decide),
    List.splitOn_append_cons_self_of_not_mem (apart _ _ _ (by decide)),
    List.splitOn_append_cons_self_of_not_mem (apart _ _ _ (by decide)),
    List.splitOn_eq_singleton (by decide)]
  simp only [readStretch_range, Option.bind_some, Option.map_some]

theorem isRecord_header (oldStart oldStop newStart newStop : Nat) :
    Text.IsRecord (header oldStart oldStop newStart newStop) := by
  refine ⟨("@@ -" ++ range oldStart oldStop ++ " +" ++ range newStart newStop ++ " @@").toList,
    ?_, ?_⟩
  · simp [header, String.toList_append]
  · have apart : ∀ start stop : Nat, '\n' ∉ (range start stop).toList :=
      fun start stop => not_mem_range (by decide)
    simp [String.toList_append, apart]

/-! ## Following a diff -/

/-- Whether records lead from one state to another and add some lines to the new text. -/
def Leads (state : State) (records written : List Line) (next : State) : Prop :=
  ∀ rest, follow state (records ++ rest) = (follow next rest).map (written ++ ·)

namespace Leads

theorem nil (state : State) : Leads state [] [] state := by
  intro rest
  simp

theorem step {state next : State} {record : Line} {written : List Line}
    (success : Patch.step state record = some (written, next)) :
    Leads state [record] written next := by
  intro rest
  rw [List.singleton_append, follow, success, Option.bind_some]

theorem append {state middle next : State} {front back written written' : List Line}
    (first : Leads state front written middle) (second : Leads middle back written' next) :
    Leads state (front ++ back) (written ++ written') next := by
  intro rest
  rw [List.append_assoc, first, second, Option.map_map]
  simp only [Function.comp_def, List.append_assoc]

end Leads

theorem leads_marked {mark : Char} {written : Line → List Line} {state : Nat → List Line → State}
    (taken : ∀ count line rest,
      step (state count (line :: rest)) (mark :: line) = some (written line, state (count + 1) rest))
    (lines : List Line) (count : Nat) :
    Leads (state count lines) (lines.map (mark :: ·)) (lines.flatMap written)
      (state (count + lines.length) []) := by
  induction lines generalizing count with
  | nil => exact .nil _
  | cons line rest induction =>
      have both := (Leads.step (taken count line rest)).append (induction (count + 1))
      rwa [Nat.add_assoc, Nat.add_comm 1] at both

section Lines

variable {oldPlace newPlace oldLeft newLeft : Nat} {remaining : List Line}

theorem leads_kept (lines : List Line) :
    Leads ⟨oldPlace, newPlace, oldLeft + lines.length, newLeft + lines.length, lines ++ remaining⟩
      (lines.map (' ' :: ·)) lines
        ⟨oldPlace + lines.length, newPlace + lines.length, oldLeft, newLeft, remaining⟩ := by
  let state := fun count (rest : List Line) => State.mk (oldPlace + count) (newPlace + count)
    (oldLeft + rest.length) (newLeft + rest.length) (rest ++ remaining)
  have taken : ∀ count line rest, step (state count (line :: rest)) (' ' :: line) =
      some ([line], state (count + 1) rest) := fun _ _ _ => if_pos rfl
  have leads := leads_marked taken lines 0
  rwa [List.flatMap_singleton', Nat.zero_add] at leads

theorem leads_removed (lines : List Line) :
    Leads ⟨oldPlace, newPlace, oldLeft + lines.length, newLeft, lines ++ remaining⟩
      (lines.map ('-' :: ·)) [] ⟨oldPlace + lines.length, newPlace, oldLeft, newLeft, remaining⟩ := by
  let state := fun count (rest : List Line) => State.mk (oldPlace + count) newPlace
    (oldLeft + rest.length) newLeft (rest ++ remaining)
  have taken : ∀ count line rest, step (state count (line :: rest)) ('-' :: line) =
      some ([], state (count + 1) rest) := by
    intro count line rest
    cases newLeft <;> exact if_pos rfl
  have leads := leads_marked taken lines 0
  rwa [List.flatMap_eq_nil_iff.mpr fun _ _ => rfl, Nat.zero_add] at leads

theorem leads_added (lines : List Line) :
    Leads ⟨oldPlace, newPlace, oldLeft, newLeft + lines.length, remaining⟩
      (lines.map ('+' :: ·)) lines
        ⟨oldPlace, newPlace + lines.length, oldLeft, newLeft, remaining⟩ := by
  let state := fun count (rest : List Line) => State.mk oldPlace (newPlace + count) oldLeft
    (newLeft + rest.length) remaining
  have taken : ∀ count line rest, step (state count (line :: rest)) ('+' :: line) =
      some ([line], state (count + 1) rest) := by
    intro count line rest
    cases oldLeft <;> cases remaining <;> rfl
  have leads := leads_marked taken lines 0
  rwa [List.flatMap_singleton', Nat.zero_add] at leads

def pieceRecords : Piece → List Line
  | .kept lines => lines.map (' ' :: ·)
  | .changed old new => old.map ('-' :: ·) ++ new.map ('+' :: ·)

theorem flatten_pieceRecords (piece : Piece) : (pieceRecords piece).flatten = pieceText piece := by
  cases piece <;> simp [pieceRecords, pieceText, marked, List.flatMap_def]

theorem leads_piece (piece : Piece) :
    Leads ⟨oldPlace, newPlace, oldLeft + piece.old.length, newLeft + piece.new.length,
        piece.old ++ remaining⟩ (pieceRecords piece) piece.new
      ⟨oldPlace + piece.old.length, newPlace + piece.new.length, oldLeft, newLeft, remaining⟩ := by
  cases piece with
  | kept lines => exact leads_kept lines
  | changed old new => exact (leads_removed old).append (leads_added new)

theorem leads_pieces (hunk : List Located) :
    Leads ⟨oldPlace, newPlace, oldLeft + (oldLines hunk).length, newLeft + (newLines hunk).length,
        oldLines hunk ++ remaining⟩ (hunk.flatMap fun located => pieceRecords located.piece)
      (newLines hunk)
      ⟨oldPlace + (oldLines hunk).length, newPlace + (newLines hunk).length, oldLeft, newLeft,
        remaining⟩ := by
  induction hunk generalizing oldPlace newPlace with
  | nil => simpa [oldLines, newLines] using Leads.nil _
  | cons located rest induction =>
      have first := @leads_piece oldPlace newPlace (oldLeft + (oldLines rest).length)
        (newLeft + (newLines rest).length) (oldLines rest ++ remaining) located.piece
      have both := first.append induction
      rw [Nat.add_right_comm oldLeft, Nat.add_right_comm newLeft] at both
      simpa only [oldLines, newLines, List.flatMap_cons, List.length_append, List.append_assoc,
        Nat.add_assoc] using both

end Lines

/-! ## Hunks -/

def hunkRecords (hunk : List Located) : List Line :=
  match hunk.head?, hunk.getLast? with
  | some first, some last =>
      header first.oldStart last.oldStop first.newStart last.newStop ::
        hunk.flatMap fun located => pieceRecords located.piece
  | _, _ => []

theorem flatten_hunkRecords (hunk : List Located) : (hunkRecords hunk).flatten = hunkText hunk := by
  have pieces : (hunk.flatMap fun located => pieceRecords located.piece).flatten =
      hunk.flatMap fun located => pieceText located.piece := by
    induction hunk with
    | nil => rfl
    | cons located rest induction =>
        rw [List.flatMap_cons, List.flatten_append, flatten_pieceRecords, induction,
          List.flatMap_cons]
  rw [hunkRecords, hunkText]
  cases hunk.head? with
  | none => rfl
  | some first =>
      cases hunk.getLast? with
      | none => rfl
      | some last =>
          dsimp only
          rw [List.flatten_cons, pieces]
          rfl

theorem exists_leads_hunk {hunk rest : List Located} {oldPlace newPlace : Nat} {old new : List Line}
    (nonempty : hunk ≠ []) (chain : hunk.IsChain Located.Precedes)
    (turns : Turns oldPlace newPlace (hunk ++ rest) old new) :
    ∃ written oldPlace' newPlace' old' new', new = written ++ new' ∧
      Leads ⟨oldPlace, newPlace, 0, 0, old⟩ (hunkRecords hunk) written
        ⟨oldPlace', newPlace', 0, 0, old'⟩ ∧ Turns oldPlace' newPlace' rest old' new' := by
  rcases List.exists_cons_of_ne_nil nonempty with ⟨first, pieces, rfl⟩
  rcases turns.exists_of_chain chain with
    ⟨gap, old', new', rfl, rfl, starts, starts', last, final, stops, stops', behind⟩
  have records : hunkRecords (first :: pieces) =
      header first.oldStart last.oldStop first.newStart last.newStop ::
        (first :: pieces).flatMap fun located => pieceRecords located.piece := by
    rw [hunkRecords, List.head?_cons, Option.mem_def.mp final]
  have opened : step ⟨oldPlace, newPlace, 0, 0, gap ++ (oldLines (first :: pieces) ++ old')⟩
      (header first.oldStart last.oldStop first.newStart last.newStop) =
        some (gap, ⟨first.oldStart, first.newStart, (oldLines (first :: pieces)).length,
          (newLines (first :: pieces)).length, oldLines (first :: pieces) ++ old'⟩) := by
    have oldLength : last.oldStop - first.oldStart = (oldLines (first :: pieces)).length := by omega
    have newLength : last.newStop - first.newStart = (newLines (first :: pieces)).length := by omega
    have skipped : first.oldStart - oldPlace = gap.length := by omega
    simp only [step, readHeader_header, Option.bind_some, openHunk, oldLength, newLength, skipped]
    rw [if_pos ⟨by omega, by simp, starts'⟩, List.take_left, List.drop_left]
  have changed := @leads_pieces first.oldStart first.newStart 0 0 old' (first :: pieces)
  rw [Nat.zero_add, Nat.zero_add] at changed
  rw [stops, stops'] at behind
  rw [records]
  exact ⟨_, _, _, _, new', (List.append_assoc _ _ _).symm, (Leads.step opened).append changed,
    behind⟩

/-- A reader that follows hunks turns the old lines into the new ones. -/
theorem follow_hunks {hunks : List (List Located)} {oldPlace newPlace : Nat} {old new : List Line}
    (each : ∀ hunk ∈ hunks, hunk ≠ [] ∧ hunk.IsChain Located.Precedes)
    (turns : Turns oldPlace newPlace hunks.flatten old new) :
    follow ⟨oldPlace, newPlace, 0, 0, old⟩ (hunks.flatMap hunkRecords) = some new := by
  induction hunks generalizing oldPlace newPlace old new with
  | nil =>
      cases turns
      rfl
  | cons hunk rest induction =>
      have parts := List.forall_mem_cons.mp each
      rw [List.flatten_cons] at turns
      rcases exists_leads_hunk parts.1.1 parts.1.2 turns with
        ⟨written, _, _, old', new', rfl, leads, behind⟩
      rw [List.flatMap_cons, leads, induction parts.2 behind, Option.map_some]

theorem isRecord_of_mem_pieceRecords {piece : Piece}
    (old : ∀ line ∈ piece.old, Text.IsRecord line) (new : ∀ line ∈ piece.new, Text.IsRecord line) :
    ∀ record ∈ pieceRecords piece, Text.IsRecord record := by
  have marked : ∀ (mark : Char) (lines : List Line), mark ≠ '\n' →
      (∀ line ∈ lines, Text.IsRecord line) →
        ∀ record ∈ lines.map (mark :: ·), Text.IsRecord record := by
    intro mark lines other each record member
    rcases List.mem_map.mp member with ⟨line, found, rfl⟩
    exact Text.isRecord_cons other (each line found)
  cases piece with
  | kept lines => exact marked ' ' lines (by decide) old
  | changed removed added =>
      exact List.forall_mem_append.mpr
        ⟨marked '-' removed (by decide) old, marked '+' added (by decide) new⟩

theorem isRecord_of_mem_hunkRecords {hunk : List Located}
    (old : ∀ line ∈ oldLines hunk, Text.IsRecord line)
    (new : ∀ line ∈ newLines hunk, Text.IsRecord line) :
    ∀ record ∈ hunkRecords hunk, Text.IsRecord record := by
  intro record member
  unfold hunkRecords at member
  split at member
  · rcases List.mem_cons.mp member with rfl | inside
    · exact isRecord_header _ _ _ _
    · rcases List.mem_flatMap.mp inside with ⟨located, found, inPiece⟩
      exact isRecord_of_mem_pieceRecords
        (fun line inLine => old line (List.mem_flatMap.mpr ⟨located, found, inLine⟩))
        (fun line inLine => new line (List.mem_flatMap.mpr ⟨located, found, inLine⟩))
        record inPiece
  · cases member

theorem isRecord_fileLine (mark : String) (within : '\n' ∉ mark.toList) {fileName : String}
    (oneLine : '\n' ∉ fileName.toList) :
    Text.IsRecord (mark.toList ++ (fileName.toList ++ ['\n'])) := by
  refine ⟨mark.toList ++ fileName.toList, (List.append_assoc _ _ _).symm, ?_⟩
  rw [List.mem_append, not_or]
  exact ⟨within, oneLine⟩

/-- Hunks under the names of a file are applied as they are followed, whatever stands behind the last
of them. -/
theorem apply_hunks {hunks : List (List Located)} {front front' tail : List Line}
    {fileName : String} (oneLine : '\n' ∉ fileName.toList)
    (each : ∀ hunk ∈ hunks, hunk ≠ [] ∧ hunk.IsChain Located.Precedes)
    (turns : ∀ others, Turns 0 0 hunks.flatten (front ++ others) (front' ++ others))
    (old : ∀ line ∈ front, Text.IsRecord line) (new : ∀ line ∈ front', Text.IsRecord line)
    (inOld : oldLines hunks.flatten ⊆ front) (inNew : newLines hunks.flatten ⊆ front') :
    apply ("--- a/" ++ fileName ++ "\n+++ b/" ++ fileName ++ "\n" ++
        String.ofList (hunks.flatMap hunkText)).toList (front ++ tail).flatten =
      some (front' ++ tail).flatten := by
  have fromLine := isRecord_fileLine "--- a/" (by decide) oneLine
  have toLine := isRecord_fileLine "+++ b/" (by decide) oneLine
  have text : ("--- a/" ++ fileName ++ "\n+++ b/" ++ fileName ++ "\n" ++
      String.ofList (hunks.flatMap hunkText)).toList =
        "--- a/".toList ++ (fileName.toList ++ ['\n']) ++
          ("+++ b/".toList ++ (fileName.toList ++ ['\n']) ++ (hunks.flatMap hunkRecords).flatten) := by
    have records : (hunks.flatMap hunkRecords).flatten = hunks.flatMap hunkText := by
      rw [List.flatMap_def, List.flatten_flatten, List.map_map, List.flatMap_def]
      exact congrArg List.flatten (List.map_congr_left fun hunk _ => flatten_hunkRecords hunk)
    rw [records]
    simp [String.toList_append]
  have hunkLines : ∀ record ∈ hunks.flatMap hunkRecords, Text.IsRecord record := by
    intro record member
    rcases List.mem_flatMap.mp member with ⟨hunk, inside, found⟩
    have within : ∀ {side : Located → List Line} {line : Line}, line ∈ hunk.flatMap side →
        line ∈ hunks.flatten.flatMap side := by
      intro side line inHunk
      rcases List.mem_flatMap.mp inHunk with ⟨located, lies, inLine⟩
      exact List.mem_flatMap.mpr ⟨located, List.mem_flatten.mpr ⟨hunk, inside, lies⟩, inLine⟩
    exact isRecord_of_mem_hunkRecords (fun line inLine => old line (inOld (within inLine)))
      (fun line inLine => new line (inNew (within inLine))) record found
  rw [apply, text, Text.records_append fromLine, Text.records_append toLine,
    Text.records_flatten hunkLines]
  dsimp only
  rw [if_pos (by simp [List.isPrefixOf]), List.flatten_append,
    Text.records_flatten_append old, follow_hunks each (turns _), Option.map_some,
    List.flatten_append, Text.flatten_records, List.flatten_append]

end Patch

/-! ## Diffs of texts -/

section Texts

variable (old new : String) (context : Nat)

def textHunks : List (List Located) :=
  hunks context (pieces (closedLines old.toList) (closedLines new.toList))

/-- The lines of two texts up to the end of the last hunk of their diff. -/
def reachedLines : List Line :=
  match (textHunks old new context).flatten.getLast? with
  | none => []
  | some last =>
      (closedLines old.toList).take last.oldStop ++ (closedLines new.toList).take last.newStop

theorem turns_textHunks : Turns 0 0 (textHunks old new context).flatten (closedLines old.toList)
    (closedLines new.toList) := by
  have turns := turns_hunks context (pieces (closedLines old.toList) (closedLines new.toList))
  rwa [flatMap_old_pieces, flatMap_new_pieces] at turns

theorem exists_reachedLines :
    ∃ front front' tail, closedLines old.toList = front ++ tail ∧
      closedLines new.toList = front' ++ tail ∧ reachedLines old new context = front ++ front' ∧
      (∀ others, Turns 0 0 (textHunks old new context).flatten (front ++ others) (front' ++ others)) ∧
      oldLines (textHunks old new context).flatten ⊆ front ∧
      newLines (textHunks old new context).flatten ⊆ front' := by
  rcases (turns_textHunks old new context).exists_reach with
    ⟨front, front', tail, split, split', moved, reach, none, inOld, inNew⟩
  refine ⟨front, front', tail, split, split', ?_, moved, inOld, inNew⟩
  rw [reachedLines]
  cases final : (textHunks old new context).flatten.getLast? with
  | none =>
      rcases none (List.getLast?_eq_none_iff.mp final) with ⟨rfl, rfl⟩
      rfl
  | some last =>
      rcases reach last final with ⟨stop, stop'⟩
      dsimp only
      rw [stop, stop', split, split', Nat.zero_add, Nat.zero_add, List.take_left, List.take_left]

theorem reachedLines_subset :
    reachedLines old new context ⊆ closedLines old.toList ++ closedLines new.toList := by
  rcases exists_reachedLines old new context with ⟨front, front', tail, split, split', reached, _⟩
  rw [reached, split, split']
  intro line member
  rcases List.mem_append.mp member with inOld | inNew
  · exact List.mem_append_left _ (List.mem_append_left tail inOld)
  · exact List.mem_append_right _ (List.mem_append_left tail inNew)

theorem closed_eq_of_textHunks (none : textHunks old new context = []) :
    Text.closed old.toList = Text.closed new.toList := by
  have turns := turns_textHunks old new context
  rw [none] at turns
  rw [← flatten_closedLines, ← flatten_closedLines]
  generalize closedLines old.toList = lines at turns
  generalize closedLines new.toList = lines' at turns
  cases turns
  rfl

/-- The diff of two texts turns the one into the other when it is read, if each of the lines that it
reaches ends with a line feed. -/
theorem apply_unified (fileName : String) (oneLine : '\n' ∉ fileName.toList)
    (ends : ∀ line ∈ reachedLines old new context, line.getLast? = some '\n') :
    Patch.apply (unified old new fileName context).toList (Text.closed old.toList) =
      some (Text.closed new.toList) := by
  by_cases unchanged : (decide (old = new) || decide (textHunks old new context = [])) = true
  · have same : Text.closed old.toList = Text.closed new.toList := by
      rw [Bool.or_eq_true, decide_eq_true_eq, decide_eq_true_eq] at unchanged
      rcases unchanged with rfl | none
      · rfl
      · exact closed_eq_of_textHunks old new context none
    have empty : unified old new fileName context = "" := if_pos unchanged
    rw [empty, same]
    rfl
  · have changed : unified old new fileName context = "--- a/" ++ fileName ++ "\n+++ b/" ++ fileName ++
        "\n" ++ String.ofList ((textHunks old new context).flatMap hunkText) := if_neg unchanged
    rcases exists_reachedLines old new context with
      ⟨front, front', tail, split, split', reached, moved, inOld, inNew⟩
    rw [reached, List.forall_mem_append] at ends
    have read : ∀ line ∈ front, Text.IsRecord line := by
      intro line member
      have inside : line ∈ closedLines old.toList := split ▸ List.mem_append_left tail member
      exact isRecord_of_mem_closedLines inside (ends.1 line member)
    have read' : ∀ line ∈ front', Text.IsRecord line := by
      intro line member
      have inside : line ∈ closedLines new.toList := split' ▸ List.mem_append_left tail member
      exact isRecord_of_mem_closedLines inside (ends.2 line member)
    rw [changed, ← flatten_closedLines, ← flatten_closedLines, split, split']
    exact Patch.apply_hunks oneLine (fun _ => of_mem_hunks) moved read read' inOld inNew

end Texts

theorem apply_unified_carriage_return :
    (∀ line ∈ reachedLines "use c;\r\nuse b;" "use b;\nuse c;\n" 1, line.getLast? = some '\n') ∧
    Patch.apply (unified "use c;\r\nuse b;" "use b;\nuse c;\n" "a.rs" 1).toList
      "use c;\r\nuse b;\n".toList = some "use b;\nuse c;\n".toList := by
  have all : ∀ line ∈ closedLines "use c;\r\nuse b;".toList ++ closedLines "use b;\nuse c;\n".toList,
      line.getLast? = some '\n' := by decide
  have ends : ∀ line ∈ reachedLines "use c;\r\nuse b;" "use b;\nuse c;\n" 1,
      line.getLast? = some '\n' := fun line member => all line (reachedLines_subset _ _ _ member)
  exact ⟨ends, apply_unified _ _ 1 "a.rs" (by decide) ends⟩

/-- Where a line ends with a form feed, the next line of the diff is taken for a part of it. -/
theorem apply_unified_form_feed :
    Patch.apply (unified "" "\x0cuse b;\n" "a.rs").toList [] = none := by
  have diff : unified "" "\x0cuse b;\n" "a.rs" =
      "--- a/a.rs\n+++ b/a.rs\n@@ -0,0 +1,2 @@\n+\x0c+use b;\n" := by
    cbv
  rw [diff]
  cbv

end ImportBlock.Diff
