import ImportBlock.Decimal.Layout
import ImportBlock.Text.Quoted

namespace ImportBlock

/-! Option values as a configuration document gives them, before anything is known of their
shape. -/

inductive Value
  | null
  | bool (value : Bool)
  | int (value : Int)
  | float (value : Float)
  | string (value : String)
  | list (items : List Value)
  | table (fields : List (String × Value))

namespace Value

/-- In messages a number is written positionally from `0.0001` up to sixteen digits. -/
def numberLayout : Decimal.Layout where
  leastPositional := -4
  greatestPositional := 15
  whole := ".0"
  exponentDigits := 2
  infinity := "inf"
  notANumber := "nan"

mutual
def display : Value → String
  | .null => "None"
  | .bool true => "True"
  | .bool false => "False"
  | .int value => toString value
  | .float value => numberLayout.text value
  | .string value => Text.quoted value
  | .list items => "[" ++ ", ".intercalate (displayItems items) ++ "]"
  | .table fields =>
      "\x7b" ++ ", ".intercalate (displayFields fields) ++ "\x7d"

def displayItems : List Value → List String
  | [] => []
  | item :: rest => item.display :: displayItems rest

def displayFields : List (String × Value) → List String
  | [] => []
  | (key, value) :: rest => (Text.quoted key ++ ": " ++ value.display) :: displayFields rest
end

def kindName : Value → String
  | .null => "NoneType"
  | .bool _ => "bool"
  | .int _ => "int"
  | .float _ => "float"
  | .string _ => "str"
  | .list _ => "list"
  | .table _ => "dict"

def field? (fields : List (String × Value)) (key : String) : Option Value :=
  (fields.find? (·.1 == key)).map (·.2)

example : (Value.list [.int 1, .string "a", .null]).display = "[1, 'a', None]" := by cbv
example : (Value.float 1e16).display = "1e+16" := by decide +kernel
example : (Value.float 0.5).display = "0.5" := by decide +kernel

end Value

end ImportBlock
