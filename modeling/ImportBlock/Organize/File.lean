import ImportBlock.Assembly
import ImportBlock.Diff.Unified
import ImportBlock.Report

namespace ImportBlock

/-! ## Texts

Organizing a source text: the use items at its top are merged and written anew, and the rest of
the text stays as it is. Comments between those items are lost. -/

/-- The stretch from the first statement to the last. -/
def blockSpan? (statements : List Statement) : Option Span := do
  let first ← statements.head?
  let last ← statements.getLast?
  return ⟨(← first.span).start, (← last.span).stop⟩

def organizeSource (config : Config) (text : String) : Except ImportError String := do
  let statements ← (Statement.scan text).mapError .syntactic
  match blockSpan? statements with
  | none => return text
  | some span =>
      let forest ← (Forest.ofStatements statements (some 0)).mapError .syntactic
      let merged ← (MergedSet.merge [forest] config.absorbUnaliased).mapError .conflict
      let block := (merged.sections config).text
      return String.ofList (text.toList.take span.start) ++ block ++
        String.ofList (text.toList.drop span.stop)

/-! ## Files on a disk -/

/-- A text as it is read: every kind of line end becomes a line feed. -/
def unifyLineEnds : List Char → List Char
  | [] => []
  | '\r' :: '\n' :: rest => '\n' :: unifyLineEnds rest
  | '\r' :: rest => '\n' :: unifyLineEnds rest
  | c :: rest => c :: unifyLineEnds rest

structure OrganizeOptions where
  config : Config := .default
  /-- Report what would change, and change nothing. -/
  dryRun : Bool := false
  /-- Whether the disk takes no more bytes. -/
  full : Bool := false

def organizeFailure (path : FilePath) (message : String) (cause : Option Cause)
    (diff : Option String := none) : Report :=
  { message, target := some path.text, failure := some ⟨"organize", cause⟩, diff }

/-- Writes a file. A full disk still cuts the file to nothing before the first byte fails. -/
def Disk.replace (disk : Disk) (path : FilePath) (bytes : List UInt8) (full : Bool) :
    Except StorageFault Unit × Disk :=
  let kept := if full then [] else bytes
  match disk.write path kept with
  | .error fault => (.error fault, disk)
  | .ok written => (if kept = bytes then .ok () else .error .tooLarge, written)

def organizeText (options : OrganizeOptions) (disk : Disk) (path : FilePath) (text : String) :
    Report × Disk :=
  match organizeSource options.config text with
  | .error error =>
      let message := "Failed to organize uses in " ++ path.text ++ ": " ++ error.text
      (organizeFailure path message (some (.imports error)), disk)
  | .ok organized =>
      let report (message : String) : Report := { message, target := some path.text }
      let diff := Diff.unified text organized path.name
      let changed (message : String) : Report :=
        { report (message ++ path.text) with changedFiles := [path.text], diff := some diff }
      if organized = text then (report "Uses already organized", disk)
      else if options.dryRun then (changed "[DRY RUN] Would organize uses in ", disk)
      else
        match disk.replace path (Text.Utf8.encode organized.toList) options.full with
        | (.ok (), next) => (changed "Organized uses in ", next)
        | (.error fault, next) =>
            (organizeFailure path ("Failed to write file: " ++ fault.message)
              (some (.storage fault)) (some diff), next)

def organizeFile (options : OrganizeOptions) (disk : Disk) (path : FilePath) : Report × Disk :=
  let unread (cause : Cause) : Report :=
    organizeFailure path ("Failed to read file: " ++ cause.text) (some cause)
  match disk.read path with
  | .error (.isDirectory name) => (unread (.storage (.isDirectory name)), disk)
  | .error _ => (organizeFailure path ("File not found: " ++ path.text) none, disk)
  | .ok bytes =>
      match Text.Utf8.decode bytes with
      | .error fault => (unread (.undecodable fault), disk)
      | .ok text => organizeText options disk path (String.ofList (unifyLineEnds text))

end ImportBlock
