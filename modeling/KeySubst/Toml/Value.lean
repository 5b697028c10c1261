import KeySubst.Number.Binary64
import KeySubst.Toml.Datetime

namespace KeySubst.Toml

inductive Value where
  | string (text : String)
  | integer (value : Int)
  | float (value : Binary64)
  | boolean (value : Bool)
  | datetime (value : Datetime)
  | array (items : List Value)
  | table (entries : List (String × Value))

abbrev Table := List (String × Value)

inductive Kind where
  | string
  | integer
  | float
  | boolean
  | datetime
  | array
  | table
  deriving DecidableEq, Repr

def Kind.name : Kind → String
  | string => "string"
  | integer => "integer"
  | float => "float"
  | boolean => "boolean"
  | datetime => "datetime"
  | array => "array"
  | table => "table"

namespace Value

def kind : Value → Kind
  | string _ => .string
  | integer _ => .integer
  | float _ => .float
  | boolean _ => .boolean
  | datetime _ => .datetime
  | array _ => .array
  | table _ => .table

/-- A datetime counts as its normal form. -/
def asText? : Value → Option String
  | string s => some s
  | datetime d => some d.text
  | _ => none

def asBoolean? : Value → Option Bool
  | boolean b => some b
  | _ => none

def asTexts? : Value → Option (List String)
  | array items => items.mapM asText?
  | _ => none

def asTable? : Value → Option Table
  | table entries => some entries
  | _ => none

end Value

end KeySubst.Toml
