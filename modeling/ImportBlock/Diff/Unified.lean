import ImportBlock.Diff.Alignment
import ImportBlock.Text.Lines

namespace ImportBlock.Diff

/-! Unified diffs: the changes of a text in hunks, with some unchanged lines around them. -/

/-- A piece with the numbers of lines that stand before it. -/
structure Located where
  oldStart : Nat
  newStart : Nat
  piece : Piece
deriving DecidableEq, Repr

namespace Located

def oldStop (located : Located) : Nat := located.oldStart + located.piece.old.length

def newStop (located : Located) : Nat := located.newStart + located.piece.new.length

def first (count : Nat) (located : Located) : Located :=
  match located.piece with
  | .kept lines => { located with piece := .kept (lines.take count) }
  | .changed _ _ => located

def last (count : Nat) (located : Located) : Located :=
  match located.piece with
  | .kept lines =>
      let skipped := lines.length - count
      ⟨located.oldStart + skipped, located.newStart + skipped, .kept (lines.drop skipped)⟩
  | .changed _ _ => located

end Located

def locate (oldStart newStart : Nat) : List Piece → List Located
  | [] => []
  | piece :: rest =>
      ⟨oldStart, newStart, piece⟩ ::
        locate (oldStart + piece.old.length) (newStart + piece.new.length) rest

/-- Cuts the unchanged lines before the first change and behind the last one. -/
def trim (context : Nat) (pieces : List Located) : List Located :=
  let ahead := match pieces with
    | [] => []
    | located :: rest => located.last context :: rest
  match ahead.getLast? with
  | none => []
  | some located => ahead.dropLast ++ [located.first context]

/-- Collects pieces into hunks. Unchanged lines are cut in two where they are more than the context
of both sides. -/
def collect (context : Nat) (current : List Located) : List Located → List (List Located)
  | [] => [current]
  | located :: rest =>
      if !located.piece.isChange && 2 * context < located.piece.old.length then
        (current ++ [located.first context]) :: collect context [located.last context] rest
      else collect context (current ++ [located]) rest

def hunks (context : Nat) (pieces : List Piece) : List (List Located) :=
  (collect context [] (trim context (locate 0 0 pieces))).filter fun hunk =>
    hunk.any (·.piece.isChange)

/-- Line numbers from one: the first line and how many there are. A single line needs no number,
and no lines stand behind the line before them. -/
def range (start stop : Nat) : String :=
  let length := stop - start
  if length = 1 then toString (start + 1)
  else toString (if length = 0 then start else start + 1) ++ "," ++ toString length

def marked (mark : Char) (lines : List Line) : List Char := lines.flatMap (mark :: ·)

def pieceText : Piece → List Char
  | .kept lines => marked ' ' lines
  | .changed old new => marked '-' old ++ marked '+' new

def hunkText (hunk : List Located) : List Char :=
  match hunk.head?, hunk.getLast? with
  | some first, some last =>
      let header := "@@ -" ++ range first.oldStart last.oldStop ++ " +" ++
        range first.newStart last.newStop ++ " @@\n"
      header.toList ++ hunk.flatMap fun located => pieceText located.piece
  | _, _ => []

/-- The lines of a text, the last one ended by a line feed. -/
def closedLines (text : List Char) : List Line :=
  let lines := Text.lines text
  match lines.getLast? with
  | none => []
  | some line =>
      if line.getLast? = some '\n' then lines else lines.dropLast ++ [line ++ ['\n']]

/-- The unified diff of two texts of a file, empty if nothing changed. -/
def unified (old new : String) (fileName : String) (context : Nat := 3) : String :=
  let hunks := hunks context (pieces (closedLines old.toList) (closedLines new.toList))
  if old = new || hunks = [] then ""
  else "--- a/" ++ fileName ++ "\n+++ b/" ++ fileName ++ "\n" ++
    String.ofList (hunks.flatMap hunkText)

end ImportBlock.Diff
