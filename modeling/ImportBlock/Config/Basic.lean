import ImportBlock.Granularity
import ImportBlock.Identifier
import ImportBlock.Text.Blank
import ImportBlock.Text.Utf8
import ImportBlock.Value

namespace ImportBlock

/-! Settings: which first segments belong to which section, how imports are spread over items, and
whether a renamed import makes the plain one redundant. -/

structure Config where
  /-- First segments of the core section, in increasing order. -/
  coreNames : List String
  /-- First segments of the local section, besides the keywords of paths, in increasing order. -/
  ownNames : List String
  granularity : Granularity
  absorbUnaliased : Bool
deriving DecidableEq, Repr

inductive ConfigFault
  | unknownOptions (names : List String)
  | notNameList
  | stringForNames
  | notString (value : Value)
  | emptyName
  | pathKeyword (name : String)
  | notIdentifier (name : String)
  | bothSections (names : List String)
  | unknownGranularity (value : Value)
  | notBoolean
  | notTable
  | unreadable (path : String) (reason : String)
  | malformedDocument (path : String)
  /-- A fault that a caller describes in words of its own. -/
  | reported (text : String)

def ConfigFault.message : ConfigFault → String
  | .unknownOptions names => "unknown option(s): " ++ ", ".intercalate names
  | .notNameList => "expected a list of names"
  | .stringForNames => "expected a collection of names, not a string"
  | .notString value => "expected a string, found " ++ value.display
  | .emptyName => "empty name"
  | .pathKeyword name => Text.quoted name ++ " is a path keyword, not a crate name"
  | .notIdentifier name => Text.quoted name ++ " is not a valid identifier"
  | .bothSections names => "names cannot be both core and local: " ++ ", ".intercalate names
  | .unknownGranularity value =>
      "unknown granularity " ++ value.display ++ ", expected one of: " ++
        ", ".intercalate (Granularity.all.map (·.name))
  | .notBoolean => "expected a boolean"
  | .notTable => "expected a table"
  | .unreadable path reason => "cannot read " ++ path ++ ": " ++ reason
  | .malformedDocument path => "invalid TOML in " ++ path
  | .reported text => text

/-- A fault with the option that it was found in, if it is known. -/
structure ConfigError where
  fault : ConfigFault
  key : Option String := none

namespace ConfigError

def message (error : ConfigError) : String := error.fault.message

def text (error : ConfigError) : String :=
  match error.key with
  | none => error.message
  | some key => if key = "" then error.message else key ++ ": " ++ error.message

end ConfigError

/-- Why there is no configuration: a setting is wrong, or a value is of a kind that cannot be
looked into at all. -/
inductive ConfigFailure
  | setting (error : ConfigError)
  /-- A composite value cannot be a member of a set of names. -/
  | compositeMember (value : Value)
  /-- The value given for names has no members. -/
  | noMembers (value : Value)
  /-- The value that a table is looked up in is no table itself. -/
  | noFields (value : Value)
  | undecodable (fault : Text.Utf8.Fault)

def ConfigFailure.text : ConfigFailure → String
  | .setting error => error.text
  | .compositeMember value => "unhashable type: '" ++ value.kindName ++ "'"
  | .noMembers value => "'" ++ value.kindName ++ "' object is not iterable"
  | .noFields value => "'" ++ value.kindName ++ "' object has no attribute 'get'"
  | .undecodable fault => fault.message

namespace Config

def wrong {α : Type} (fault : ConfigFault) (key : Option String := none) :
    Except ConfigFailure α :=
  .error (.setting { fault, key })

def nameSet (names : List String) : List String :=
  names.eraseDups.mergeSort fun left right => left ≤ right

def checkName : Value → Except ConfigFault String
  | .string name =>
      if name.toList.all Text.isBlank then .error .emptyName
      else if Identifier.isPathKeyword name then .error (.pathKeyword name)
      else if !Identifier.accepts name.toList then .error (.notIdentifier name)
      else .ok name
  | value => .error (.notString value)

def checkNames (key : String) (values : List Value) : Except ConfigFailure (List String) :=
  match values.mapM checkName with
  | .ok names => .ok (nameSet names)
  | .error fault => wrong fault key

/-- No name belongs to both sections. -/
def checkSections (coreNames ownNames : List String) : Except ConfigFailure Unit :=
  match coreNames.filter ownNames.contains with
  | [] => .ok ()
  | both => wrong (.bothSections both) "local_names"

def checkGranularity (value : Value) : Except ConfigFailure Granularity :=
  match Granularity.ofValue? value with
  | some granularity => .ok granularity
  | none => wrong (.unknownGranularity value) "granularity"

def checkBoolean (key : String) : Value → Except ConfigFailure Bool
  | .bool value => .ok value
  | _ => wrong .notBoolean key

def defaultCoreNames : List String := ["alloc", "core", "proc_macro", "std", "test"]

def default : Config := ⟨defaultCoreNames, [], .module, true⟩

instance : Inhabited Config := ⟨default⟩

def checkMembers (values : List Value) : Except ConfigFailure (List Value) :=
  match values.find? fun value => value matches .list _ | .table _ with
  | some value => .error (.compositeMember value)
  | none => .ok values

def withCoreNames (config : Config) (names : List Value) : Except ConfigFailure Config := do
  let added ← checkMembers names
  let coreNames ← checkNames "core_names" (config.coreNames.map .string ++ added)
  checkSections coreNames config.ownNames
  return { config with coreNames }

/-! Settings come in a table of options. -/

def optionNames : List String :=
  ["core_names", "extend_core_names", "local_names", "granularity", "absorb_unaliased"]

/-- The members of the list of names that an option gives, if the option is there. -/
def listed? (options : List (String × Value)) (key : String) :
    Except ConfigFailure (Option (List Value)) :=
  match Value.field? options key with
  | none => .ok none
  | some (.list items) => (checkMembers items).map some
  | some _ => wrong .notNameList key

/-- Reads a table of options. The option `core_names` replaces the default core names, and
`extend_core_names` adds to what there is. -/
def ofOptions (options : List (String × Value)) : Except ConfigFailure Config := do
  let unknown := (options.map (·.1)).filter fun name => !optionNames.contains name
  if unknown ≠ [] then wrong (.unknownOptions (nameSet unknown))
  let core ← listed? options "core_names"
  let added ← listed? options "extend_core_names"
  let own ← listed? options "local_names"
  let granularity ← (Value.field? options "granularity").elim (.ok .module) checkGranularity
  let coreValues := core.getD (defaultCoreNames.map .string) ++ added.getD []
  let coreNames ← checkNames "core_names" coreValues
  let ownNames ← checkNames "local_names" (own.getD [])
  checkSections coreNames ownNames
  let absorb ← (Value.field? options "absorb_unaliased").elim (.ok true)
    (checkBoolean "absorb_unaliased")
  return ⟨coreNames, ownNames, granularity, absorb⟩

/-! Settings may also be given one by one, as values of any kind. -/

/-- The members of a value that stands for a collection: the items of a list, the keys of a
table. -/
def members (key : String) : Value → Except ConfigFailure (List Value)
  | .list items => .ok items
  | .table fields => .ok (fields.map fun field => .string field.1)
  | .string _ => wrong .stringForNames key
  | value => .error (.noMembers value)

/-- Takes each setting that is given, and the default for each that is not. -/
def ofSettings (coreNames ownNames granularity absorb : Option Value) :
    Except ConfigFailure Config := do
  let core ← coreNames.elim (.ok defaultCoreNames) fun value => do
    checkNames "core_names" (← members "core_names" value)
  let own ← ownNames.elim (.ok []) fun value => do
    checkNames "local_names" (← members "local_names" value)
  checkSections core own
  let granularity ← granularity.elim (.ok .module) checkGranularity
  let absorb ← absorb.elim (.ok true) (checkBoolean "absorb_unaliased")
  return ⟨core, own, granularity, absorb⟩

end Config

end ImportBlock
