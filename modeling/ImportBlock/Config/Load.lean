import ImportBlock.Config.Basic
import ImportBlock.Storage.Disk
import ImportBlock.Toml.Reader

namespace ImportBlock.Config

/-! Configuration on a disk: a document whose options stand at the top, or a project's document
that has them in a table of their own. -/

def documentName : String := "usemerge.toml"

def projectDocumentName : String := "pyproject.toml"

/-- The document that holds the configuration of a path. In a directory it is looked for under the
names that documents have. -/
def document? (disk : Disk) (path : FilePath) : Option FilePath :=
  match disk.find path with
  | .directory _ =>
      ([documentName, projectDocumentName].map path.join).find? fun candidate =>
        (disk.find candidate matches .file _ _)
  | _ => some path

def inner (fields : List (String × Value)) (key : String) : Value :=
  (Value.field? fields key).getD (.table [])

/-- The options in a project's document. -/
def projectOptions (fields : List (String × Value)) :
    Except ConfigFailure (List (String × Value)) :=
  match inner fields "tool" with
  | .table tools =>
      match inner tools "usemerge" with
      | .table options => .ok options
      | _ => wrong .notTable "tool.usemerge"
  | other => .error (.noFields other)

def readDocument (disk : Disk) (path : FilePath) : Except ConfigFailure (List (String × Value)) :=
  match disk.read path with
  | .error fault => wrong (.unreadable path.text fault.message)
  | .ok bytes =>
      match Text.Utf8.decode bytes with
      | .error fault => .error (.undecodable fault)
      | .ok text =>
          match Toml.parse? text with
          | none => wrong (.malformedDocument path.text)
          | some fields => .ok fields

def load (disk : Disk) (path : FilePath) : Except ConfigFailure Config :=
  match document? disk path with
  | none => .ok .default
  | some document => do
      let fields ← readDocument disk document
      if document.name = projectDocumentName then ofOptions (← projectOptions fields)
      else ofOptions fields

end ImportBlock.Config
