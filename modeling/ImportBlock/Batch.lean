import ImportBlock.Report

namespace ImportBlock

/-! Reports on many files. -/

structure Batch where
  reports : List Report

namespace Batch

def succeeded (batch : Batch) : List Report := batch.reports.filter (·.succeeded)

def failed (batch : Batch) : List Report := batch.reports.filter fun report => !report.succeeded

def allSucceeded (batch : Batch) : Bool := batch.reports.all (·.succeeded)

def anySucceeded (batch : Batch) : Bool := batch.reports.any (·.succeeded)

def get? (batch : Batch) (target : String) : Option Report :=
  batch.reports.find? (·.target == some target)

/-- Files by their names: a name that is given again keeps its place and takes the fragments given
last. -/
def lastOfEach (files : List (String × List Fragment)) : List (String × List Fragment) :=
  (gather (·.1) files).map fun (name, given) =>
    (name, (given.getLast?.map (·.2)).getD [])

inductive Fault
  | noWorkers
deriving DecidableEq, Repr

def Fault.message : Fault → String
  | .noWorkers => "max_workers must be greater than 0"

def buildFile (config : Config) (name : String) (fragments : List Fragment) : Report :=
  { Assembly.build ⟨config, fragments⟩ with target := some name }

/-- The import blocks of files. Unless one worker is asked for, or one file is all there is, the
number of workers has to be positive. The reports do not depend on it. -/
def build (files : List (String × List Fragment)) (config : Config)
    (workers : Option Int := none) : Except Fault Batch :=
  let distinct := lastOfEach files
  if workers ≠ some 1 && 1 < distinct.length && workers.any (· ≤ 0) then .error .noWorkers
  else .ok ⟨distinct.map fun (name, fragments) => buildFile config name fragments⟩

end Batch

end ImportBlock
