import ImportBlock.Value

namespace ImportBlock.Toml

/-! A TOML document while its lines are read. Whether a line may add to a table depends on how the
table came to be there, so tables remember that. Values, inline tables and arrays among them, are
complete when they are read. -/

/-- How a table came to be in a document. -/
inductive Origin
  /-- It only stands on the way to a table with a header. -/
  | implied
  /-- It has a header of its own. -/
  | header
  /-- A dotted key in the section with this number went through it. -/
  | dotted (number : Nat)
deriving DecidableEq, Repr

inductive Node
  | value (value : Value)
  | table (origin : Origin) (fields : List (String × Node))
  /-- The tables of a header in double brackets. The last one is still open. -/
  | tables (items : List (List (String × Node)))

abbrev Fields := List (String × Node)

namespace Fields

def find? (fields : Fields) (key : String) : Option Node := fields.lookup key

def put (fields : Fields) (key : String) (node : Node) : Fields :=
  if fields.any (·.1 == key) then
    fields.map fun field => if field.1 == key then (key, node) else field
  else fields ++ [(key, node)]

def change (edit : Fields → Option Fields) : (path : List String) → Fields → Option Fields
  | [], fields => edit fields
  | key :: rest, fields =>
      match fields.find? key with
      | none => do return fields.put key (.table .implied (← change edit rest []))
      | some (.table origin inner) => do
          return fields.put key (.table origin (← change edit rest inner))
      | some (.tables items) => do
          let inner ← change edit rest (← items.getLast?)
          return fields.put key (.tables (items.dropLast ++ [inner]))
      | some (.value _) => none

/-- A header: the table must not have been there, except on the way to others. -/
def openTable (path : List String) (fields : Fields) : Option Fields := do
  let name ← path.getLast?
  fields.change (fun fields =>
    match fields.find? name with
    | none => some (fields.put name (.table .header []))
    | some (.table .implied inner) => some (fields.put name (.table .header inner))
    | _ => none) path.dropLast

/-- A header in double brackets: one more table under its name. -/
def addTable (path : List String) (fields : Fields) : Option Fields := do
  let name ← path.getLast?
  fields.change (fun fields =>
    match fields.find? name with
    | none => some (fields.put name (.tables [[]]))
    | some (.tables items) => some (fields.put name (.tables (items ++ [[]])))
    | _ => none) path.dropLast

/-- Gives a dotted key a value. Tables on the way must not have been defined elsewhere. -/
def assign (number : Nat) (value : Value) : (key : List String) → Fields → Option Fields
  | [], _ => none
  | [name], fields => if (fields.find? name).isSome then none else fields.put name (.value value)
  | name :: rest, fields =>
      match fields.find? name with
      | none => do return fields.put name (.table (.dotted number) (← assign number value rest []))
      | some (.table origin inner) =>
          if origin = .implied || origin = .dotted number then do
            return fields.put name (.table (.dotted number) (← assign number value rest inner))
          else none
      | _ => none

end Fields

mutual
def Node.toValue : Node → Value
  | .value value => value
  | .table _ fields => .table (valuesOf fields)
  | .tables items => .list (tablesOf items)

def valuesOf : List (String × Node) → List (String × Value)
  | [] => []
  | (key, node) :: rest => (key, node.toValue) :: valuesOf rest

def tablesOf : List (List (String × Node)) → List Value
  | [] => []
  | fields :: rest => .table (valuesOf fields) :: tablesOf rest
end

end ImportBlock.Toml
