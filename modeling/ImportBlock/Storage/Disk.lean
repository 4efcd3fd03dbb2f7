import ImportBlock.Text.Quoted

namespace ImportBlock

/-! ## Paths

Paths of files. Repeated slashes and components that are a single dot mean nothing, and are
left out. Two slashes at the beginning differ from one, three or more do not. -/

structure FilePath where
  /-- The slashes at the beginning: none for a relative path. -/
  root : String
  components : List String
deriving DecidableEq, Repr

namespace FilePath

def cut : List Char → List (List Char)
  | [] => [[]]
  | '/' :: rest => [] :: cut rest
  | c :: rest =>
      match cut rest with
      | [] => [[c]]
      | first :: others => (c :: first) :: others

def rootOf : List Char → String
  | '/' :: '/' :: '/' :: _ => "/"
  | '/' :: '/' :: _ => "//"
  | '/' :: _ => "/"
  | _ => ""

def ofText (text : String) : FilePath :=
  let components := (cut text.toList).map String.ofList
  ⟨rootOf text.toList, components.filter fun component => component ≠ "" && component ≠ "."⟩

def text (path : FilePath) : String :=
  if path.root = "" && path.components = [] then "."
  else path.root ++ "/".intercalate path.components

def name (path : FilePath) : String := path.components.getLast?.getD ""

def join (path : FilePath) (name : String) : FilePath :=
  { path with components := path.components ++ [name] }

example : (ofText "./d//x.rs").text = "d/x.rs" := by cbv
example : (ofText "").text = "." := by cbv

end FilePath

/-! ## Disks

A disk: files and directories below one working directory. -/

inductive StorageFault
  | missing (path : String)
  | notDirectory (path : String)
  | isDirectory (path : String)
  | tooLarge
deriving DecidableEq, Repr

def StorageFault.message : StorageFault → String
  | .missing path => "[Errno 2] No such file or directory: " ++ Text.quoted path
  | .notDirectory path => "[Errno 20] Not a directory: " ++ Text.quoted path
  | .isDirectory path => "[Errno 21] Is a directory: " ++ Text.quoted path
  | .tooLarge => "[Errno 27] File too large"

/-- Files and directories by the names that lead to them. The directories on the way to an entry
exist with it. -/
structure Disk where
  files : List (List String × List UInt8) := []
  directories : List (List String) := []
deriving DecidableEq, Repr

inductive Found
  | file (place : List String) (bytes : List UInt8)
  | directory (place : List String)
  | missing
  /-- On the way there is a file. -/
  | notDirectory
deriving DecidableEq, Repr

namespace Disk

def at? (disk : Disk) (place : List String) : Found :=
  match disk.files.find? (·.1 == place) with
  | some (_, bytes) => .file place bytes
  | none =>
      if place = [] || disk.directories.any place.isPrefixOf ||
          disk.files.any (place.isPrefixOf ·.1) then .directory place
      else .missing

/-- Goes one step on from what was found so far. Two dots lead back, and further and further out of
the working directory once it is left. -/
def step (disk : Disk) (found : Found) (name : String) : Found :=
  match found with
  | .directory place =>
      if name ≠ ".." then disk.at? (place ++ [name])
      else if place.all (· == "..") then .directory (place ++ [".."])
      else .directory place.dropLast
  | .file _ _ => .notDirectory
  | other => other

/-- What a path leads to. An absolute path leads nowhere but to the root. -/
def find (disk : Disk) (path : FilePath) : Found :=
  if path.root = "" then path.components.foldl disk.step (.directory [])
  else if path.components = [] then .directory []
  else .missing

def read (disk : Disk) (path : FilePath) : Except StorageFault (List UInt8) :=
  match disk.find path with
  | .file _ bytes => .ok bytes
  | .directory _ => .error (.isDirectory path.text)
  | .missing => .error (.missing path.text)
  | .notDirectory => .error (.notDirectory path.text)

def put (disk : Disk) (place : List String) (bytes : List UInt8) : Disk :=
  { disk with files := (disk.files.filter (·.1 != place)) ++ [(place, bytes)] }

def write (disk : Disk) (path : FilePath) (bytes : List UInt8) : Except StorageFault Disk :=
  match disk.find path with
  | .file place _ => .ok (disk.put place bytes)
  | .missing => .ok (disk.put path.components bytes)
  | .directory _ => .error (.isDirectory path.text)
  | .notDirectory => .error (.notDirectory path.text)

def makeDirectory (disk : Disk) (path : FilePath) : Disk :=
  { disk with directories := disk.directories ++ [path.components] }

end Disk

end ImportBlock
