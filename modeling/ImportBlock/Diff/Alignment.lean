import Std.Data.HashMap

namespace ImportBlock.Diff

/-! Aligning two lists of lines. The longest run of lines that both have in common is kept, and
the lines before it and behind it are aligned in the same way. What has no run in common has been
changed. -/

abbrev Line := List Char

instance : Hashable Line := ⟨fun line => hash (String.ofList line)⟩

inductive Piece
  | kept (lines : List Line)
  | changed (old new : List Line)
deriving DecidableEq, Repr

namespace Piece

def old : Piece → List Line
  | .kept lines => lines
  | .changed old _ => old

def new : Piece → List Line
  | .kept lines => lines
  | .changed _ new => new

def isChange : Piece → Bool
  | .kept _ => false
  | .changed _ _ => true

end Piece

def commonPrefix : List Line → List Line → List Line
  | line :: rest, line' :: rest' => if line = line' then line :: commonPrefix rest rest' else []
  | _, _ => []

/-! Runs are looked for among lines that tell something: in a long text a line that occurs too often
does not. -/

/-- The places of each line of a text, in increasing order. In a text of two hundred lines or more a
line that occurs too often has no places. -/
def index (text : List Line) : Std.HashMap Line (List Nat) :=
  let places : Std.HashMap Line (List Nat) := text.zipIdx.foldr (fun (line, place) places =>
    places.insert line (place :: places.getD line [])) ∅
  let limit := text.length / 100 + 1
  if text.length < 200 then places
  else places.filter fun _ found => found.length ≤ limit

/-- An old line, and the places of the new text where it is looked for. -/
structure Sought where
  line : Line
  places : List Nat
deriving DecidableEq, Repr

def linesOf (sought : List Sought) : List Line := sought.map (·.line)

theorem length_linesOf (sought : List Sought) : (linesOf sought).length = sought.length :=
  List.length_map ..

def seek (old new : List Line) : List Sought :=
  let index := index new
  old.map fun line => ⟨line, index.getD line []⟩

/-- A run of lines found in both lists: how many lines stand before it in each, and its length. -/
structure Run where
  oldStart : Nat
  newStart : Nat
  length : Nat
deriving DecidableEq, Repr

/-- The common runs that end with an old line at one of its places: where each of them stops in the
new text, and its length. `previous` has the runs that end with the old line before. -/
def runsEndingAt (previous : List (Nat × Nat)) : (places : List Nat) → List (Nat × Nat)
  | [] => []
  | place :: places =>
      let near := previous.dropWhile fun (stop, _) => stop < place
      let length := match near with
        | (stop, length) :: _ => if stop = place then length else 0
        | [] => 0
      (place + 1, length + 1) :: runsEndingAt near places

/-- The longer of the best run so far and the runs that end at the old line `row`. Of runs of equal
length the first one counts. -/
def bestOfRow (row : Nat) (best : Run) (runs : List (Nat × Nat)) : Run :=
  runs.foldl (fun best (stop, length) =>
    if best.length < length then ⟨row + 1 - length, stop - length, length⟩ else best) best

/-- The longest run of old lines and new ones from the place `start` up to `stop`. -/
def longestRunFrom (start stop row : Nat) (previous : List (Nat × Nat)) (best : Run) :
    List Sought → Run
  | [] => best
  | sought :: rest =>
      let places := (sought.places.dropWhile (· < start)).takeWhile (· < stop)
      let runs := runsEndingAt previous places
      longestRunFrom start stop (row + 1) runs (bestOfRow row best runs) rest

/-- The longest run of telling lines, with the equal lines before it. The new lines stand at the
place `start` of their text. -/
def longestRun (start : Nat) (old : List Sought) (new : List Line) : Run :=
  let run := longestRunFrom start (start + new.length) 0 [] ⟨0, start, 0⟩ old
  let newStart := run.newStart - start
  let before := commonPrefix (linesOf (old.take run.oldStart)).reverse (new.take newStart).reverse
  ⟨run.oldStart - before.length, newStart - before.length, run.length + before.length⟩

theorem commonPrefix_prefix_left (left right : List Line) : commonPrefix left right <+: left := by
  fun_induction commonPrefix left right with
  | case1 rest line rest' induction => exact (List.prefix_cons_inj line).mpr induction
  | case2 => exact List.nil_prefix
  | case3 => exact List.nil_prefix

theorem commonPrefix_prefix_right (left right : List Line) :
    commonPrefix left right <+: right := by
  fun_induction commonPrefix left right with
  | case1 rest line rest' induction => exact (List.prefix_cons_inj line).mpr induction
  | case2 => exact List.nil_prefix
  | case3 => exact List.nil_prefix

/-- Aligns old lines with the new lines that stand at the place `start` of their text. The run that
is kept goes on for as long as the lines agree. -/
def align (start : Nat) (old : List Sought) (new : List Line) : List Piece :=
  let lines := linesOf old
  let run := longestRun start old new
  match _equal : commonPrefix (lines.drop run.oldStart) (new.drop run.newStart) with
  | [] => [.changed lines new]
  | line :: rest =>
      let kept := line :: rest
      let newStop := run.newStart + kept.length
      align start (old.take run.oldStart) (new.take run.newStart) ++ .kept kept ::
        align (start + newStop) (old.drop (run.oldStart + kept.length)) (new.drop newStop)
termination_by old.length
decreasing_by
  all_goals
    have shorter := (commonPrefix_prefix_left (lines.drop run.oldStart)
      (new.drop run.newStart)).length_le
    simp +zetaDelta only [_equal, List.length_cons, List.length_drop,
      length_linesOf] at shorter
    simp +zetaDelta only [List.length_take, List.length_drop, List.length_cons]
    omega

private theorem take_append_prefix_append_drop {lines part : List Line} {start : Nat}
    (present : part <+: lines.drop start) :
    lines.take start ++ (part ++ lines.drop (start + part.length)) = lines := by
  obtain ⟨rest, equal⟩ := present
  have remaining : lines.drop (start + part.length) = rest := by
    rw [← List.drop_drop, ← equal, List.drop_left]
  rw [remaining, equal, List.take_append_drop]

theorem flatMap_old_align (start : Nat) (old : List Sought) (new : List Line) :
    (align start old new).flatMap Piece.old = linesOf old := by
  fun_induction align start old new with
  | case1 => simp only [List.flatMap_singleton, Piece.old]; rfl
  | case2 start old new lines run line rest equal kept newStop before behind =>
      have present := commonPrefix_prefix_left (lines.drop run.oldStart) (new.drop run.newStart)
      rw [equal] at present
      simp only [List.flatMap_append, List.flatMap_cons, before, behind, Piece.old, linesOf,
        List.map_take, List.map_drop]
      exact take_append_prefix_append_drop present

theorem flatMap_new_align (start : Nat) (old : List Sought) (new : List Line) :
    (align start old new).flatMap Piece.new = new := by
  fun_induction align start old new with
  | case1 => simp [Piece.new]
  | case2 start old new lines run line rest equal kept newStop before behind =>
      have present := commonPrefix_prefix_right (lines.drop run.oldStart) (new.drop run.newStart)
      rw [equal] at present
      simp only [List.flatMap_append, List.flatMap_cons, before, behind, Piece.new]
      exact take_append_prefix_append_drop present

theorem linesOf_seek (old new : List Line) : linesOf (seek old new) = old := by
  simp [linesOf, seek, Function.comp_def]

/-- Leaves out changes of nothing and joins runs that follow each other directly. -/
def joinPieces : List Piece → List Piece
  | [] => []
  | .changed [] [] :: rest => joinPieces rest
  | .kept lines :: rest =>
      match joinPieces rest with
      | .kept others :: rest => .kept (lines ++ others) :: rest
      | rest => .kept lines :: rest
  | piece :: rest => piece :: joinPieces rest

def pieces (old new : List Line) : List Piece := joinPieces (align 0 (seek old new) new)

end ImportBlock.Diff
