import ImportBlock.Assembly
import ImportBlock.Storage.Disk
import ImportBlock.Text.Utf8

namespace ImportBlock

/-! Reports: what an operation did, or why it failed. -/

inductive Cause
  | imports (error : ImportError)
  | storage (fault : StorageFault)
  | undecodable (fault : Text.Utf8.Fault)

def Cause.text : Cause → String
  | .imports error => error.text
  | .storage fault => fault.message
  | .undecodable fault => fault.message

structure Failure where
  /-- The name of the operation that failed. -/
  operation : String := ""
  cause : Option Cause := none

inductive Payload
  | sections (sections : Sections)
  | items (texts : List String)

structure Report where
  message : String
  /-- The file that the report is on, if there is one. -/
  target : Option String := none
  /-- None if the operation succeeded. -/
  failure : Option Failure := none
  payload : Option Payload := none
  changedFiles : List String := []
  diff : Option String := none

namespace Report

def succeeded (report : Report) : Bool := report.failure.isNone

def ofFailure (operation : String) (error : ImportError) : Report :=
  { message := error.text, failure := some ⟨operation, some (.imports error)⟩ }

end Report

namespace Assembly

def merged (assembly : Assembly) : String :=
  "Merged " ++ toString assembly.fragments.length ++ " fragment(s) into "

def build (assembly : Assembly) : Report :=
  match assembly.merge with
  | .error error => .ofFailure "build" error
  | .ok merged =>
      let sections := merged.sections assembly.config
      let counts := Section.all.map fun name =>
        toString (sections.get name).length ++ " " ++ name.name
      { message := assembly.merged ++ ", ".intercalate counts ++ " statement(s)"
        payload := some (.sections sections) }

def intoItems (assembly : Assembly) : Report :=
  match assembly.merge with
  | .error error => .ofFailure "into_items" error
  | .ok merged =>
      let texts := (merged.items assembly.config.granularity).map (·.text)
      { message := assembly.merged ++ toString texts.length ++ " statement(s)"
        payload := some (.items texts) }

end Assembly

end ImportBlock
